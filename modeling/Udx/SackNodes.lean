/-
# The nodes of the SACK tree (udx_sack_tree.c)

The tree as the source has it: blocks that point to their children and to their
parent, and a sentinel whose parent `udx_sack_tree_remove` writes and reads. A
loop that does not end within its fuel fails, as a NULL pointer that is followed
does. An insertion is the one into the red-black tree that the memory shows.

Key definitions: `udxSackTreeInsert`, `udxSackTreeRemove`, `udxSackTreeNext`.
Key theorems: `insertLoop_spec`, `udxSackTreeInsert_spec`.
-/
import Udx.RedBlackHeap
import Udx.SackTrees

namespace Udx.SackNodes

open Serial RedBlack

def rbtreeLeftRotate (node : ℕ) (h : Heap) : Option Heap := h.rotate .left node

def rbtreeRightRotate (node : ℕ) (h : Heap) : Option Heap := h.rotate .right node

def rbtreeRotate : Side → ℕ → Heap → Option Heap
  | .left => rbtreeLeftRotate
  | .right => rbtreeRightRotate

@[simp] theorem rbtreeRotate_eq (d : Side) (node : ℕ) (h : Heap) : rbtreeRotate d node h = h.rotate d node := by
  cases d <;> rfl

/-- `udx_sack_tree_init`, in any memory. -/
def udxSackTreeInit (h : Heap) : Heap :=
  ((((h.setChild 0 .left none).setChild 0 .right none).setParent 0 none).setColor 0 .black).setRoot 0

/-! ### Insertion -/

section

variable (start : ℕ → SeqNo)

/-- The loop of `actual_sack_insert_fn`: the node and the side of a new block. -/
def insertPlace (block : ℕ) : ℕ → ℕ → Heap → Option (ℕ × Side)
  | 0, _, _ => none
  | fuel + 1, temp, h => do
    let d := if seqDiff (start block) (start temp) < 0 then Side.left else .right
    let next ← h.child temp d
    if next = 0 then some (temp, d) else insertPlace block fuel next h

/-- A new red block below `temp`. -/
def linkBlock (temp : ℕ) (d : Side) (block : ℕ) (h : Heap) : Heap :=
  ((((h.setChild temp d (some block)).setParent block (some temp)).setChild block .left (some 0)).setChild
    block .right (some 0)).setColor block .red

/-- `actual_sack_insert_fn`. -/
def actualSackInsertFn (fuel temp block : ℕ) (h : Heap) : Option Heap := do
  let (temp, d) ← insertPlace start block fuel temp h
  some (linkBlock temp d block h)

/-- The block and its parent are on one side: the rotation of the grandparent. -/
def insertRotate (d : Side) (block : ℕ) (h : Heap) : Option (ℕ × Heap) := do
  let parent ← h.parent block
  let h := h.setColor parent .black
  let grand ← h.parent parent
  let h ← rbtreeRotate d.flip grand (h.setColor grand .red)
  some (block, h)

/-- A turn of the loop that re-balances the tree, where the parent of the block
is on side `d`. -/
def insertTurn (d : Side) (block : ℕ) (h : Heap) : Option (ℕ × Heap) := do
  let parent ← h.parent block
  let grand ← h.parent parent
  let temp ← h.child grand d.flip
  if h.color temp = .red then
    some (grand, ((h.setColor parent .black).setColor temp .black).setColor grand .red)
  else if h.child parent d.flip = some block then do
    let h ← rbtreeRotate d parent h
    insertRotate d parent h
  else insertRotate d block h

def insertLoop : ℕ → ℕ → Heap → Option Heap
  | 0, _, _ => none
  | fuel + 1, block, h =>
    if block = h.root then some h
    else do
      let parent ← h.parent block
      if h.color parent = .red then do
        let grand ← h.parent parent
        let (block, h) ← insertTurn (if h.child grand .left = some parent then .left else .right) block h
        insertLoop fuel block h
      else some h

/-- `udx_sack_tree_insert`. -/
def udxSackTreeInsert (fuel block : ℕ) (h : Heap) : Option Heap :=
  if h.root = 0 then
    some (((((h.setParent block none).setChild block .left (some 0)).setChild block .right (some 0)).setColor
      block .black).setRoot block)
  else do
    let h ← actualSackInsertFn start fuel h.root block h
    let h ← insertLoop fuel block h
    some (h.setColor h.root .black)

end

/-! ### Removal -/

/-- `rbtree_min`. -/
def rbtreeMin : ℕ → ℕ → Heap → Option ℕ
  | 0, _, _ => none
  | fuel + 1, node, h => do
    let left ← h.child node .left
    if left = 0 then some node else rbtreeMin fuel left h

/-- The pointers of a block that was taken out are NULL. -/
def clearLinks (block : ℕ) (h : Heap) : Heap :=
  ((h.setChild block .left none).setChild block .right none).setParent block none

/-- The parent of `node` points to `temp` instead. -/
def replaceAtParent (node temp : ℕ) (h : Heap) : Option Heap := do
  let parent ← h.parent node
  some (if h.child parent .left = some node then h.setChild parent .left (some temp)
    else h.setChild parent .right (some temp))

/-- The same, where `node` may be the root. -/
def replaceBlock (node temp : ℕ) (h : Heap) : Option Heap :=
  if node = h.root then some (h.setRoot temp) else replaceAtParent node temp h

def copyLinks (block subst : ℕ) (h : Heap) : Heap :=
  (((h.setChild subst .left (h.child block .left)).setChild subst .right (h.child block .right)).setParent subst
    (h.parent block)).setColor subst (h.color block)

/-- The child on side `d` points back. -/
def adoptChild (subst : ℕ) (d : Side) (h : Heap) : Option Heap := do
  let child ← h.child subst d
  some (if child ≠ 0 then h.setParent child (some subst) else h)

/-- `subst`, which was taken out, gets the place of `block`. -/
def takePlace (block subst : ℕ) (h : Heap) : Option Heap := do
  let h := copyLinks block subst h
  let h ← replaceBlock block subst h
  let h ← adoptChild subst .left h
  adoptChild subst .right h

/-- The sibling `w` of `temp` has a red child away from `temp`: the rotation of
the parent. -/
def removeRotate (d : Side) (temp w : ℕ) (h : Heap) : Option (ℕ × Heap) := do
  let parent ← h.parent temp
  let h := (h.setColor w (h.color parent)).setColor parent .black
  let far ← h.child w d.flip
  let h ← rbtreeRotate d parent (h.setColor far .black)
  some (h.root, h)

/-- The sibling `w` of `temp` is black. -/
def removeSibling (d : Side) (temp w : ℕ) (h : Heap) : Option (ℕ × Heap) := do
  let near ← h.child w d
  let far ← h.child w d.flip
  if h.color near = .black ∧ h.color far = .black then do
    let parent ← h.parent temp
    some (parent, h.setColor w .red)
  else if h.color far = .black then do
    let h ← rbtreeRotate d.flip w ((h.setColor near .black).setColor w .red)
    let parent ← h.parent temp
    let w ← h.child parent d.flip
    removeRotate d temp w h
  else removeRotate d temp w h

/-- A turn of the remove fixup, where `temp` is on side `d`. -/
def removeTurn (d : Side) (temp : ℕ) (h : Heap) : Option (ℕ × Heap) := do
  let parent ← h.parent temp
  let w ← h.child parent d.flip
  if h.color w = .red then do
    let h ← rbtreeRotate d parent ((h.setColor w .black).setColor parent .red)
    let parent ← h.parent temp
    let w ← h.child parent d.flip
    removeSibling d temp w h
  else removeSibling d temp w h

/-- The remove fixup. -/
def removeLoop : ℕ → ℕ → Heap → Option Heap
  | 0, _, _ => none
  | fuel + 1, temp, h =>
    if temp ≠ h.root ∧ h.color temp = .black then do
      let parent ← h.parent temp
      let (temp, h) ← removeTurn (if h.child parent .left = some temp then .left else .right) temp h
      removeLoop fuel temp h
    else some (h.setColor temp .black)

/-- The block that gives up its place, and the child that gets it. -/
def chooseSubst (fuel block : ℕ) (h : Heap) : Option (ℕ × ℕ) := do
  let left ← h.child block .left
  let right ← h.child block .right
  if left = 0 then some (right, block)
  else if right = 0 then some (left, block)
  else do
    let subst ← rbtreeMin fuel right h
    let temp ← h.child subst .right
    some (temp, subst)

/-- What the parent of `subst` no longer points to is put into the tree again. -/
def relinkSubst (block temp subst : ℕ) (h : Heap) : Option Heap :=
  if subst = block then some (h.setParent temp (h.parent subst))
  else takePlace block subst
    (h.setParent temp (if h.parent subst = some block then some subst else h.parent subst))

def removeSubst (fuel block temp subst : ℕ) (h : Heap) : Option Heap :=
  if subst = h.root then
    some (clearLinks block (((h.setRoot temp).setColor temp .black).setParent temp none))
  else do
    let red := h.color subst = .red
    let h ← replaceAtParent subst temp h
    let h ← relinkSubst block temp subst h
    let h := clearLinks block h
    if red then some h else removeLoop fuel temp h

/-- `udx_sack_tree_remove`. -/
def udxSackTreeRemove (fuel block : ℕ) (h : Heap) : Option Heap := do
  let (temp, subst) ← chooseSubst fuel block h
  removeSubst fuel block temp subst h

/-! ### Walking -/

/-- `udx_sack_tree_min`. -/
def udxSackTreeMin (fuel : ℕ) (h : Heap) : Option (Option ℕ) :=
  if h.root = 0 then some none else (rbtreeMin fuel h.root h).map some

/-- The loop of `udx_sack_tree_next`. -/
def climb : ℕ → ℕ → Heap → Option (Option ℕ)
  | 0, _, _ => none
  | fuel + 1, block, h =>
    if block = h.root then some none
    else do
      let parent ← h.parent block
      if h.child parent .left = some block then some (some parent) else climb fuel parent h

/-- `udx_sack_tree_next`. -/
def udxSackTreeNext (fuel block : ℕ) (h : Heap) : Option (Option ℕ) := do
  let right ← h.child block .right
  if right ≠ 0 then (rbtreeMin fuel right h).map some else climb fuel block h

/-- The blocks from one on, by at most so many calls of `udx_sack_tree_next`. -/
def walk (fuel : ℕ) : ℕ → Option ℕ → Heap → Option (List ℕ)
  | _, none, _ => some []
  | 0, some _, _ => none
  | n + 1, some block, h => do
    let next ← udxSackTreeNext fuel block h
    let rest ← walk fuel n next h
    some (block :: rest)

section

variable {h : Heap} {k up : Ctx ℕ} {d e : Side} {c : Color} {v s : ℕ} {t u : RedBlack.Tree ℕ} {n fuel : ℕ}

/-! ### The place of a new block -/

variable (start : ℕ → SeqNo)

/-- The comparison of `actual_sack_insert_fn`. -/
def startsBefore (block temp : ℕ) : Bool := decide (seqDiff (start block) (start temp) < 0)

theorem insertPlace_spec (block : ℕ) (hs : h.Shows k t) (ht : t ≠ .leaf) (hfuel : t.toList.length ≤ fuel) :
    ∃ v d, insertPlace start block fuel t.ptr h = some (v, d) ∧
      (t.descend (startsBefore start) block k).slot = some (v, d) ∧
      h.Shows (t.descend (startsBefore start) block k) .leaf := by
  induction t generalizing k fuel with
  | leaf => exact absurd rfl ht
  | node c l v r ihl ihr =>
    obtain ⟨fuel, rfl⟩ : ∃ m, fuel = m + 1 :=
      Nat.exists_eq_succ_of_ne_zero (by rintro rfl; simp at hfuel)
    have hlen : l.toList.length ≤ fuel ∧ r.toList.length ≤ fuel := by
      simp at hfuel
      omega
    rw [show (RedBlack.Tree.node c l v r).ptr = v from rfl]
    unfold Tree.descend insertPlace
    cases hlt : startsBefore start block v with
    | true =>
      have hdiff : seqDiff (start block) (start v) < 0 := of_decide_eq_true hlt
      have hl : h.Shows (.down .left c v r k) l := Heap.Shows.down.mpr hs
      simp only [hdiff, if_true, hl.child.1, Option.bind_eq_bind, Option.bind_some]
      rcases eq_or_ne l .leaf with rfl | hleaf
      · exact ⟨v, .left, if_pos rfl, rfl, hl⟩
      · rw [if_neg (mt hl.ptr_eq_zero.mp hleaf)]
        exact ihl hl hleaf hlen.1
    | false =>
      have hdiff : ¬ seqDiff (start block) (start v) < 0 := of_decide_eq_false hlt
      have hr : h.Shows (.down .right c v l k) r := Heap.Shows.down.mpr hs
      simp only [hdiff, if_false, Bool.false_eq_true, hr.child.1, Option.bind_eq_bind, Option.bind_some]
      rcases eq_or_ne r .leaf with rfl | hleaf
      · exact ⟨v, .right, if_pos rfl, rfl, hr⟩
      · rw [if_neg (mt hr.ptr_eq_zero.mp hleaf)]
        exact ihr hr hleaf hlen.2

/-- A new block in the place of an empty tree. -/
theorem shows_link {block : ℕ} (hs : h.Shows k .leaf) (hslot : k.slot = some (v, d)) (hblock : block ∉ k.nodes)
    (hb0 : block ≠ 0) : (linkBlock v d block h).Shows k (.node .red .leaf block .leaf) := by
  unfold linkBlock
  have hnotin : block ∉ (k.fill .leaf).toList := by
    rw [Tree.mem_fill]
    simpa using hblock
  obtain ⟨-, hnd, -⟩ := Tree.nodup_fill.mp hs.nodup
  have habove : k.above = some v := by
    obtain ⟨e, c, u, s, up, rfl⟩ := Ctx.cases_down (k := k) (by rintro rfl; cases hslot)
    rw [Ctx.slot_down] at hslot
    cases hslot
    rw [Ctx.above_down]
  have hvb : v ≠ block := by
    rintro rfl
    exact hblock (Ctx.slot_mem hslot)
  refine ⟨hs.spine.put hnd ?_ (fun u hu e => ?_) fun u hu => ?_, ?_, ?_, ?_, ?_⟩
  · simp [hslot]
  · have hne : u ≠ block := by
      rintro rfl
      exact hblock hu
    simp only [Heap.setColor_child, Heap.setChild_child, Heap.setParent_child, hne, false_and, if_false, hslot,
      Option.some.injEq, Prod.mk.injEq, eq_comm, Tree.ptr]
  · have hne : u ≠ block := by
      rintro rfl
      exact hblock hu
    simp [hne]
  · refine ⟨?_, ?_, ?_, ?_, trivial, trivial⟩ <;> simp [habove]
  · exact Tree.nodup_fill.mpr ⟨by simp, hnd, by simpa [List.Disjoint] using hblock⟩
  · rw [Tree.mem_fill]
    have hnil := hs.nil
    rw [Tree.mem_fill] at hnil
    simpa [hb0.symm] using hnil
  · simp [hb0.symm, hs.black]

end

/-! ### Re-balancing after an insertion -/

section

variable {h : Heap} {k up : Ctx ℕ} {d e : Side} {c : Color} {v gv pv : ℕ} {s t ps gs x y : RedBlack.Tree ℕ}
  {n fuel : ℕ}

/-- The pointers to the parent and to the grandparent. -/
theorem shows_parents (hs : h.Shows (.down e .red pv ps (.down d .black gv gs up)) t) (ht : t ≠ .leaf) :
    h.parent t.ptr = some pv ∧ h.parent pv = some gv ∧ h.child gv d.flip = some gs.ptr := by
  have hp := Heap.Shows.down.mp hs
  have hparent := hp.parent Tree.join_ne_leaf
  rw [Tree.ptr_join, Ctx.above_down] at hparent
  exact ⟨by rw [hs.parent ht, Ctx.above_down], hparent, hp.child.2⟩

theorem insertRotate_spec (hs : h.Shows (.down d .red pv ps (.down d .black gv gs up)) t) (ht : t ≠ .leaf) :
    ∃ h', insertRotate d t.ptr h = some (t.ptr, h') ∧
      h'.Shows up (.join d .black t pv (.join d .red ps gv gs)) := by
  obtain ⟨hparent, hgrand, -⟩ := shows_parents hs ht
  have hblack : (h.setColor pv .black).Shows (.down d .black gv gs up) (.join d .black t pv ps) := by
    simpa using (Heap.Shows.down.mp hs).paint Tree.join_ne_leaf .black
  have hred : ((h.setColor pv .black).setColor gv .red).Shows up
      (.join d .red (.join d .black t pv ps) gv gs) := by
    simpa using (Heap.Shows.down.mp hblack).paint Tree.join_ne_leaf .red
  rw [← Tree.join_flip, ← Tree.join_flip d] at hred
  obtain ⟨h', hrot, hs', -⟩ := hred.rotate
  rw [Tree.join_flip, Tree.join_flip] at hs'
  refine ⟨h', ?_, hs'⟩
  unfold insertRotate
  simp [hparent, hgrand, hrot]

/-- A red uncle. -/
theorem insertTurn_red (hs : h.Shows (.down e .red pv ps (.down d .black gv gs up)) t) (ht : t ≠ .leaf)
    (hgs : gs.isRed = true) : ∃ h', insertTurn d t.ptr h = some (gv, h') ∧
      h'.Shows up (.join d .red (.join e .black t pv ps) gv (gs.paint .black)) := by
  obtain ⟨hparent, hgrand, huncle⟩ := shows_parents hs ht
  have hcolor : h.color gs.ptr = .red := (Heap.Shows.other.mp (Heap.Shows.down.mp hs)).isRed.mpr hgs
  have hp : (h.setColor pv .black).Shows (.down d .black gv gs up) (.join e .black t pv ps) := by
    simpa using (Heap.Shows.down.mp hs).paint Tree.join_ne_leaf .black
  have hu : ((h.setColor pv .black).setColor gs.ptr .black).Shows (.down d .black gv (gs.paint .black) up)
      (.join e .black t pv ps) := by
    simpa using Heap.Shows.other.mp (Heap.Shows.other.mp hp).paint_black
  refine ⟨((h.setColor pv .black).setColor gs.ptr .black).setColor gv .red, ?_, ?_⟩
  · unfold insertTurn
    simp [hparent, hgrand, huncle, hcolor]
  · simpa using (Heap.Shows.down.mp hu).paint Tree.join_ne_leaf .red

/-- A black uncle, and the block on the side of its parent. -/
theorem insertTurn_outer (hs : h.Shows (.down d .red pv ps (.down d .black gv gs up)) t) (ht : t ≠ .leaf)
    (hgs : gs.isRed = false) : ∃ h', insertTurn d t.ptr h = some (t.ptr, h') ∧
      h'.Shows up (.join d .black t pv (.join d .red ps gv gs)) := by
  obtain ⟨hparent, hgrand, huncle⟩ := shows_parents hs ht
  have hcolor : h.color gs.ptr ≠ .red := by
    rw [ne_eq, (Heap.Shows.other.mp (Heap.Shows.down.mp hs)).isRed, hgs]
    exact Bool.false_ne_true
  obtain ⟨h', hrot, hs'⟩ := insertRotate_spec hs ht
  refine ⟨h', ?_, hs'⟩
  unfold insertTurn
  simp [hparent, hgrand, huncle, hcolor, hs.child.2, (hs.ptr_ne (.inl ht)).symm, hrot]

/-- A black uncle, and the block on the other side. -/
theorem insertTurn_inner (hs : h.Shows (.down d.flip .red pv ps (.down d .black gv gs up)) (.join d .red x v y))
    (hgs : gs.isRed = false) : ∃ h', insertTurn d v h = some (pv, h') ∧
      h'.Shows up (.join d .black (.join d .red ps pv x) v (.join d .red y gv gs)) := by
  obtain ⟨hparent, hgrand, huncle⟩ := shows_parents hs Tree.join_ne_leaf
  rw [Tree.ptr_join] at hparent
  have hcolor : h.color gs.ptr ≠ .red := by
    rw [ne_eq, (Heap.Shows.other.mp (Heap.Shows.down.mp hs)).isRed, hgs]
    exact Bool.false_ne_true
  have hchild := hs.child.1
  rw [Tree.ptr_join] at hchild
  have hp := Heap.Shows.down.mp hs
  rw [Tree.join_flip] at hp
  obtain ⟨h₁, hrot, hs₁, -⟩ := hp.rotate
  have houter : h₁.Shows (.down d .red v y (.down d .black gv gs up)) (.join d .red ps pv x) :=
    Heap.Shows.down.mpr hs₁
  obtain ⟨h', hrot', hs'⟩ := insertRotate_spec houter Tree.join_ne_leaf
  rw [Tree.ptr_join] at hrot'
  refine ⟨h', ?_, hs'⟩
  unfold insertTurn
  simp [hparent, hgrand, huncle, hcolor, hchild, hrot, hrot']

/-- The loop ends below a black node. -/
theorem insertLoop_black (hs : h.Shows (.down d .black v s up) t) (ht : t ≠ .leaf) (hfuel : 0 < fuel) :
    insertLoop fuel t.ptr h = some h := by
  obtain ⟨fuel, rfl⟩ := Nat.exists_eq_succ_of_ne_zero (Nat.ne_of_gt hfuel)
  have hcolor : h.color v ≠ .red := by
    have hp := (Heap.Shows.down.mp hs).isRed
    rw [Tree.ptr_join] at hp
    rw [ne_eq, hp]
    simp
  unfold insertLoop
  rw [hs.parent ht, Ctx.above_down]
  split
  · rfl
  · simp [hcolor]

/-- A turn of the loop below a red parent. -/
theorem insertLoop_turn {r : ℕ × Heap} (hs : h.Shows (.down e .red pv ps (.down d .black gv gs up)) t)
    (ht : t ≠ .leaf) (hturn : insertTurn d t.ptr h = some r) :
    insertLoop (fuel + 1) t.ptr h = insertLoop fuel r.1 r.2 := by
  obtain ⟨hparent, hgrand, -⟩ := shows_parents hs ht
  have hp := Heap.Shows.down.mp hs
  have hcolor : h.color pv = .red := by
    have hiff := hp.isRed
    rw [Tree.ptr_join] at hiff
    exact hiff.mpr (by simp)
  have hside : (if h.child gv .left = some pv then Side.left else .right) = d := by
    have hleft := hp.side (.inl Tree.join_ne_leaf)
    rwa [Tree.ptr_join] at hleft
  have hroot : t.ptr ≠ h.root := by
    rw [ne_eq, hs.root_iff]
    exact Ctx.down_ne_top
  rw [insertLoop, if_neg hroot]
  simp [hparent, hgrand, hcolor, hside, hturn]

/-- The loop repairs the tree. -/
theorem insertLoop_spec (hs : h.Shows k t) (hr : t.isRed = true) (hk : k.Ruled n)
    (hfuel : k.nodes.length < fuel) : ∃ h', insertLoop fuel t.ptr h = some h' ∧ h'.Shows .top (Tree.insertFix k t) := by
  revert hs hr hk hfuel
  refine (Ctx.pairs (motive := fun k => ∀ {h : Heap} {t : RedBlack.Tree ℕ} {n fuel : ℕ}, h.Shows k t →
    t.isRed = true → k.Ruled n → k.nodes.length < fuel →
      ∃ h', insertLoop fuel t.ptr h = some h' ∧ h'.Shows .top (Tree.insertFix k t)) ?_ ?_ ?_ k).1
  · intro h t n fuel hs _ _ hfuel
    obtain ⟨fuel, rfl⟩ := Nat.exists_eq_succ_of_ne_zero (Nat.ne_of_gt hfuel)
    refine ⟨h, ?_, hs⟩
    rw [insertLoop, if_pos (hs.root_iff.mpr rfl)]
  · intro e c v s h t n fuel hs hr hk hfuel
    have ht : t ≠ .leaf := by rintro rfl; cases hr
    cases c with
    | red => simp at hk
    | black =>
      rw [Tree.insertFix_black]
      exact ⟨h, insertLoop_black hs ht (Nat.zero_lt_of_lt hfuel), Heap.Shows.fill.mpr hs⟩
  · intro e c pv ps d c' gv gs up ih h t n fuel hs hr hk hfuel
    have ht : t ≠ .leaf := by rintro rfl; cases hr
    cases c with
    | black =>
      rw [Tree.insertFix_black]
      exact ⟨h, insertLoop_black hs ht (Nat.zero_lt_of_lt hfuel), Heap.Shows.fill.mpr hs⟩
    | red =>
      obtain ⟨-, -, hadmit, hgrand⟩ := Ctx.ruled_red.mp hk
      obtain rfl : c' = .black := by simpa using hadmit
      obtain ⟨-, hup⟩ := Ctx.ruled_black.mp hgrand
      obtain ⟨fuel, rfl⟩ := Nat.exists_eq_succ_of_ne_zero (Nat.ne_of_gt (Nat.zero_lt_of_lt hfuel))
      have hlen : up.nodes.length + 1 < fuel := by
        simp only [Ctx.length_nodes_down] at hfuel
        omega
      by_cases hside : e = d
      · subst hside
        rw [Tree.insertFix_outer]
        cases hgs : gs.isRed with
        | true =>
          obtain ⟨h₁, hturn, hs₁⟩ := insertTurn_red hs ht hgs
          rw [insertLoop_turn hs ht hturn, if_pos rfl]
          have hih := ih hs₁ (by simp) hup (Nat.lt_of_succ_lt hlen)
          rwa [Tree.ptr_join] at hih
        | false =>
          obtain ⟨h₁, hturn, hs₁⟩ := insertTurn_outer hs ht hgs
          rw [insertLoop_turn hs ht hturn, if_neg Bool.false_ne_true]
          exact ⟨h₁, insertLoop_black (Heap.Shows.down.mpr hs₁) ht (Nat.zero_lt_of_lt hlen),
            Heap.Shows.fill.mpr hs₁⟩
      · obtain rfl : e = d.flip := Side.eq_flip_of_ne hside
        obtain ⟨x, v, y, rfl⟩ := Tree.exists_red d hr
        rw [Tree.insertFix_inner]
        cases hgs : gs.isRed with
        | true =>
          obtain ⟨h₁, hturn, hs₁⟩ := insertTurn_red hs ht hgs
          rw [insertLoop_turn hs ht hturn, if_pos rfl]
          have hih := ih hs₁ (by simp) hup (Nat.lt_of_succ_lt hlen)
          rwa [Tree.ptr_join] at hih
        | false =>
          obtain ⟨h₁, hturn, hs₁⟩ := insertTurn_inner hs hgs
          have hturn' : insertTurn d (Tree.join d .red x v y).ptr h = some (pv, h₁) := by rwa [Tree.ptr_join]
          rw [insertLoop_turn hs ht hturn', if_neg Bool.false_ne_true]
          have hblack := insertLoop_black (Heap.Shows.down.mpr hs₁) Tree.join_ne_leaf (Nat.zero_lt_of_lt hlen)
          rw [Tree.ptr_join] at hblack
          exact ⟨h₁, hblack, Heap.Shows.fill.mpr hs₁⟩

end

/-- An insertion in memory is the insertion into the tree. -/
theorem udxSackTreeInsert_spec (start : ℕ → SeqNo) {h : Heap} {t : RedBlack.Tree ℕ} {block fuel : ℕ}
    (hs : h.Shows .top t) (ht : t.Sound) (hblock : block ∉ t.toList) (hb0 : block ≠ 0)
    (hfuel : t.toList.length < fuel) : ∃ h', udxSackTreeInsert start fuel block h = some h' ∧
      h'.Shows .top (t.insert (startsBefore start) block) := by
  unfold udxSackTreeInsert
  have hroot : h.root = t.ptr := hs.spine
  rcases eq_or_ne t .leaf with rfl | hleaf
  · rw [if_pos (show h.root = 0 from hroot)]
    refine ⟨_, rfl, ?_⟩
    change Heap.Shows _ .top (.node .black .leaf block .leaf)
    exact ⟨rfl, ⟨by simp, by simp, by simp, by simp, trivial, trivial⟩, by simp [Ctx.fill],
      by simpa [Ctx.fill] using hb0.symm, by simp [hb0.symm, hs.black]⟩
  · rw [if_neg (by rw [hroot]; exact mt hs.ptr_eq_zero.mp hleaf), hroot]
    obtain ⟨v, d, hplace, hslot, hs₁⟩ := insertPlace_spec start block hs hleaf (Nat.le_of_lt hfuel)
    have hfill := Tree.descend_fill (startsBefore start) block t .top
    have hnodes : (t.descend (startsBefore start) block .top).nodes.length = t.toList.length := by
      have hlist := congrArg Tree.toList hfill
      rw [Ctx.fill_toList] at hlist
      rw [show t.toList = ((Ctx.top : Ctx ℕ).fill t).toList from rfl, ← hlist]
      simp [Ctx.nodes]
    have hnotin : block ∉ (t.descend (startsBefore start) block .top).nodes := by
      intro hmem
      refine hblock ?_
      rw [show t = (Ctx.top : Ctx ℕ).fill t from rfl, ← hfill]
      exact Tree.mem_fill.mpr (.inr hmem)
    obtain ⟨n, htn⟩ := ht.2
    have hruled : (t.descend (startsBefore start) block .top).Ruled 0 :=
      htn.descend trivial (by simp [ht.1])
    have hloops := fun n (hn : (t.descend (startsBefore start) block .top).nodes.length < n) =>
      insertLoop_spec (shows_link hs₁ hslot hnotin hb0) rfl hruled hn
    obtain ⟨h', hloop, hs'⟩ := hloops fuel (hnodes ▸ hfuel)
    refine ⟨h'.setColor h'.root .black, ?_, ?_⟩
    · have hloop' : insertLoop fuel block (linkBlock v d block h) = some h' := hloop
      simp [actualSackInsertFn, hplace, hloop']
    · rw [show h'.root = _ from hs'.spine]
      exact hs'.paint_black

end Udx.SackNodes
