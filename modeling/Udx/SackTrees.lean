/-
# The SACK tree (udx_sack_tree.c)

The red-black tree of the blocks that were received out of order.
`udx_sack_tree_find` stops at the first block whose bounds, the end included,
are around the number, so that between two adjacent blocks it returns the one
that is met first.

Key definitions: `udxSackTreeFind`, `Covers`, `Answers`, `Above`, `Grown`.
Key theorems: `udxSackTreeFind_above`, `udxSackTreeFind_answers`, `Grown.blocks`,
`udxSackTreeFind_iff`, `udxSackTreeFind_toList`, `udxSackTreeInsert_toList`.
-/
import Udx.RedBlack
import Udx.Receive

namespace Udx

open Serial RedBlack

/-- `udx_sack_tree_find`. -/
def udxSackTreeFind (seq : SeqNo) : RedBlack.Tree SackBlock → Option SackBlock
  | .leaf => none
  | .node _ l b r =>
    if seqDiff seq b.start < 0 then udxSackTreeFind seq l
    else if seqDiff seq b.stop > 0 then udxSackTreeFind seq r
    else some b

/-- The comparison of `actual_sack_insert_fn`. -/
def SackBlock.startsBefore (b node : SackBlock) : Bool := decide (seqDiff b.start node.start < 0)

/-- `udx_sack_tree_insert`. -/
def udxSackTreeInsert (b : SackBlock) (t : RedBlack.Tree SackBlock) : RedBlack.Tree SackBlock :=
  t.insert SackBlock.startsBefore b

/-- `udx_sack_tree_remove`. The source has a pointer to the block. -/
def udxSackTreeRemove (b : SackBlock) (t : RedBlack.Tree SackBlock) : RedBlack.Tree SackBlock := t.remove (· = b)

/-! ### Offsets -/

/-- How far a number is from the base of the window. -/
def off (base seq : SeqNo) : ℕ := (seq - base).toNat

theorem off_inj {base a b : SeqNo} (h : off base a = off base b) : a = b := by
  unfold off at h
  rw [exists_nth base a, exists_nth base b, h]

theorem seqDiff_off {base a b : SeqNo} (ha : off base a < 2 ^ 31) (hb : off base b < 2 ^ 31) :
    seqDiff a b = (off base a : ℤ) - off base b := by
  unfold off at ha hb ⊢
  have h := seqDiff_nth base (i := (a - base).toNat) (j := (b - base).toNat) (by omega) (by omega)
  rwa [← exists_nth base a, ← exists_nth base b] at h

/-! ### Blocks -/

/-- A block that is not empty, in the window of `base`. -/
def SackBlock.Spans (base : SeqNo) (b : SackBlock) : Prop :=
  off base b.start < off base b.stop ∧ off base b.stop < 2 ^ 31

/-- Disjoint blocks in order. They may be adjacent. -/
structure Blocks (base : SeqNo) (l : List SackBlock) : Prop where
  spans : ∀ b ∈ l, b.Spans base
  sorted : l.Pairwise fun a b => off base a.stop ≤ off base b.start

theorem Blocks.node {base : SeqNo} {c : Color} {l r : RedBlack.Tree SackBlock} {v : SackBlock}
    (h : Blocks base (RedBlack.Tree.node c l v r).toList) :
    Blocks base l.toList ∧ Blocks base r.toList ∧ v.Spans base ∧
      (∀ a ∈ l.toList, off base a.stop ≤ off base v.start) ∧ ∀ b ∈ r.toList, off base v.stop ≤ off base b.start := by
  have hsorted := h.sorted
  rw [Tree.toList_node, List.pairwise_append, List.pairwise_cons] at hsorted
  obtain ⟨hl, ⟨hv, hr⟩, hlv⟩ := hsorted
  exact ⟨⟨fun b hb => h.spans b (by simp [hb]), hl⟩, ⟨fun b hb => h.spans b (by simp [hb]), hr⟩,
    h.spans v (by simp), fun a ha => hlv a ha v List.mem_cons_self, hv⟩

theorem Blocks.startsBefore_diff {base : SeqNo} {t : RedBlack.Tree SackBlock} (h : Blocks base t.toList)
    {a b : SackBlock} (hspan : b.Spans base) (ha : a ∈ t.toList) :
    seqDiff b.start a.start = (off base b.start : ℤ) - off base a.start := by
  obtain ⟨hpos, hlt⟩ := h.spans a ha
  obtain ⟨hpos', hlt'⟩ := hspan
  exact seqDiff_off (by omega) (by omega)

/-- The blocks that a block starts before are the last ones. -/
theorem Blocks.startsBefore_mono {base : SeqNo} {t : RedBlack.Tree SackBlock} (h : Blocks base t.toList)
    {b : SackBlock} (hspan : b.Spans base) :
    t.toList.Pairwise fun x y => b.startsBefore x = true → b.startsBefore y = true := by
  refine h.sorted.imp_of_mem fun {x y} hx hy hxy hlt => ?_
  have hpos := (h.spans x hx).1
  rw [SackBlock.startsBefore, h.startsBefore_diff hspan hx, decide_eq_true_eq] at hlt
  rw [SackBlock.startsBefore, h.startsBefore_diff hspan hy, decide_eq_true_eq]
  omega

/-- The block contains the number. -/
def SackBlock.Covers (base seq : SeqNo) (b : SackBlock) : Prop :=
  off base b.start ≤ off base seq ∧ off base seq < off base b.stop

/-- The answer for `seq` among some blocks: the block that contains it, else
the block that ends at it, else none. -/
structure Answers (base seq : SeqNo) (l : List SackBlock) (r : Option SackBlock) : Prop where
  covers : ∀ b ∈ l, b.Covers base seq → r = some b
  ends : (∀ b ∈ l, ¬ b.Covers base seq) → ∀ b ∈ l, b.stop = seq → r = some b
  null : (∀ b ∈ l, ¬ b.Covers base seq) → (∀ b ∈ l, b.stop ≠ seq) → r = none

/-- Blocks that neither contain the number nor end at it do not matter. -/
theorem Answers.widen {base seq : SeqNo} {l l' : List SackBlock} {r : Option SackBlock}
    (h : Answers base seq l r) (hsub : ∀ b ∈ l, b ∈ l')
    (hrest : ∀ b ∈ l', b ∈ l ∨ ¬ b.Covers base seq ∧ b.stop ≠ seq) : Answers base seq l' r := by
  refine ⟨fun b hb hc => ?_, fun hnone b hb hend => ?_, fun hnone hnoend => ?_⟩
  · exact h.covers b ((hrest b hb).resolve_right fun hb' => hb'.1 hc) hc
  · exact h.ends (fun a ha => hnone a (hsub a ha)) b ((hrest b hb).resolve_right fun hb' => hb'.2 hend) hend
  · exact h.null (fun a ha => hnone a (hsub a ha)) fun a ha => hnoend a (hsub a ha)

/-- `a` has `b` in its right subtree. -/
def Above (a b : SackBlock) : RedBlack.Tree SackBlock → Prop
  | .leaf => False
  | .node _ l v r => v = a ∧ b ∈ r.toList ∨ Above a b l ∨ Above a b r

theorem Above.mem {a b : SackBlock} {t : RedBlack.Tree SackBlock} (h : Above a b t) :
    a ∈ t.toList ∧ b ∈ t.toList := by
  induction t with
  | leaf => cases h
  | node c l v r ihl ihr =>
    rcases h with ⟨rfl, hb⟩ | h | h
    · simp [hb]
    · simp [ihl h]
    · simp [ihr h]

section

variable {base seq : SeqNo} {t : RedBlack.Tree SackBlock}

/-- Of two adjacent blocks the first is returned, if it is above the second. -/
theorem udxSackTreeFind_above (h : Blocks base t.toList) (hseq : off base seq < 2 ^ 31) {a b : SackBlock}
    (hab : Above a b t) (ha : a.stop = seq) (hb : b.start = seq) : udxSackTreeFind seq t = some a := by
  induction t with
  | leaf => cases hab
  | node c l v r ihl ihr =>
    obtain ⟨hl, hr, ⟨hv, hv31⟩, hbefore, hafter⟩ := h.node
    have hstart : seqDiff seq v.start = (off base seq : ℤ) - off base v.start := seqDiff_off hseq (by omega)
    have hstop : seqDiff seq v.stop = (off base seq : ℤ) - off base v.stop := seqDiff_off hseq hv31
    unfold udxSackTreeFind
    rw [hstart, hstop]
    rcases hab with ⟨rfl, -⟩ | hab | hab
    · have hat : off base v.stop = off base seq := by rw [ha]
      rw [if_neg (by omega), if_neg (by omega)]
    · have hspan := (hl.spans b hab.mem.2).1
      have hle := hbefore b hab.mem.2
      have hat : off base b.start = off base seq := by rw [hb]
      rw [if_pos (by omega)]
      exact ihl hl hab
    · have hspan := (hr.spans a hab.mem.1).1
      have hle := hafter a hab.mem.1
      have hat : off base a.stop = off base seq := by rw [ha]
      rw [if_neg (by omega), if_pos (by omega)]
      exact ihr hr hab

/-- The answer is right where no such two blocks meet at the number. -/
theorem udxSackTreeFind_answers (h : Blocks base t.toList) (hseq : off base seq < 2 ^ 31)
    (hclear : ¬ ∃ a b, Above a b t ∧ a.stop = seq ∧ b.start = seq) :
    Answers base seq t.toList (udxSackTreeFind seq t) := by
  induction t with
  | leaf => exact ⟨by simp, by simp, fun _ _ => rfl⟩
  | node c l v r ihl ihr =>
    obtain ⟨hl, hr, ⟨hv, hv31⟩, hbefore, hafter⟩ := h.node
    have hstart : seqDiff seq v.start = (off base seq : ℤ) - off base v.start := seqDiff_off hseq (by omega)
    have hstop : seqDiff seq v.stop = (off base seq : ℤ) - off base v.stop := seqDiff_off hseq hv31
    have hends : ∀ {b : SackBlock}, b.stop = seq → off base b.stop = off base seq := fun hb => by rw [hb]
    unfold udxSackTreeFind
    rw [hstart, hstop, Tree.toList_node]
    split
    · next hlt =>
      -- the blocks from `v` on start behind `seq`
      have hback : ∀ b ∈ v :: r.toList, off base seq < off base b.start ∧ b.Spans base := by
        intro b hb
        rcases List.mem_cons.mp hb with rfl | hb
        · exact ⟨by omega, hv, hv31⟩
        · have hle := hafter b hb
          exact ⟨by omega, hr.spans b hb⟩
      refine (ihl hl fun ⟨a, b, hab, hmeet⟩ => hclear ⟨a, b, .inr (.inl hab), hmeet⟩).widen
        (fun b hb => List.mem_append_left _ hb) fun b hb => ?_
      rcases List.mem_append.mp hb with hb | hb
      · exact .inl hb
      · obtain ⟨hlt, hspan⟩ := hback b hb
        refine .inr ⟨fun hc => ?_, fun heq => ?_⟩
        · have hle := hc.1
          omega
        · have hat := hends heq
          have hpos := hspan.1
          omega
    · split
      · -- the blocks up to `v` end before `seq`
        have hfront : ∀ b ∈ l.toList ++ [v], off base b.stop < off base seq := by
          intro b hb
          rcases List.mem_append.mp hb with hb | hb
          · have hle := hbefore b hb
            omega
          · rw [List.mem_singleton.mp hb]
            omega
        refine (ihr hr fun ⟨a, b, hab, hmeet⟩ => hclear ⟨a, b, .inr (.inr hab), hmeet⟩).widen
          (fun b hb => by simp [hb]) fun b hb => ?_
        rw [← List.singleton_append, ← List.append_assoc] at hb
        rcases List.mem_append.mp hb with hb | hb
        · have hlt := hfront b hb
          refine .inr ⟨fun hc => ?_, fun heq => ?_⟩
          · have hgt := hc.2
            omega
          · have hat := hends heq
            omega
        · exact .inl hb
      · -- `v` is returned
        have hmem : ∀ b ∈ l.toList ++ v :: r.toList, b ∈ l.toList ∨ b = v ∨ b ∈ r.toList := by simp
        refine ⟨fun b hb hc => ?_, fun hnone b hb heq => ?_, fun hnone hnoend => ?_⟩
        · rcases hmem b hb with hb | rfl | hb
          · have hle := hbefore b hb
            have hlt := hc.2
            omega
          · rfl
          · -- then `v` ends where `b` starts
            have hle := hafter b hb
            have hge := hc.1
            have hvseq : v.stop = seq := off_inj (show off base v.stop = off base seq by omega)
            have hbseq : b.start = seq := off_inj (show off base b.start = off base seq by omega)
            exact absurd ⟨v, b, .inl ⟨rfl, hb⟩, hvseq, hbseq⟩ hclear
        · have hvnot : ¬ v.Covers base seq := hnone v (by simp)
          have hat := hends heq
          rcases hmem b hb with hb | rfl | hb
          · have hle := hbefore b hb
            exact absurd ⟨by omega, by omega⟩ hvnot
          · rfl
          · have hle := hafter b hb
            have hpos := (hr.spans b hb).1
            exact absurd ⟨by omega, by omega⟩ hvnot
        · have hvnot : ¬ v.Covers base seq := hnone v (by simp)
          have hvend : v.stop ≠ seq := hnoend v (by simp)
          have hne : off base v.stop ≠ off base seq := fun heq => hvend (off_inj heq)
          exact absurd ⟨by omega, by omega⟩ hvnot

/-- On every tree of disjoint blocks `udx_sack_tree_find` gives the right answer
unless of two blocks that meet at the number the first one is above the second. -/
theorem udxSackTreeFind_iff (h : Blocks base t.toList) (hseq : off base seq < 2 ^ 31) :
    Answers base seq t.toList (udxSackTreeFind seq t) ↔
      ¬ ∃ a b, Above a b t ∧ a.stop = seq ∧ b.start = seq := by
  refine ⟨?_, udxSackTreeFind_answers h hseq⟩
  rintro hanswers ⟨a, b, hab, ha, hb⟩
  have hspan := h.spans b hab.mem.2
  have hat : off base b.start = off base seq := by rw [hb]
  have hcovers : b.Covers base seq := ⟨by omega, by have := hspan.1; omega⟩
  have heq := hanswers.covers b hab.mem.2 hcovers
  rw [udxSackTreeFind_above h hseq hab ha hb] at heq
  -- `a` ends where `b` starts, so they differ
  have hends : off base a.stop = off base seq := by rw [ha]
  rw [Option.some.inj heq] at hends
  have hpos := hspan.1
  omega

/-! ### The list of the receive path -/

/-- Blocks that do not touch. -/
def Apart (base : SeqNo) (l : List SackBlock) : Prop :=
  l.Pairwise fun a b => off base a.stop < off base b.start

/-- Where no two blocks touch, the tree gives what `sackTreeFind` finds in the
list of its blocks. -/
theorem udxSackTreeFind_toList (h : Blocks base t.toList) (hapart : Apart base t.toList)
    (hseq : off base seq < 2 ^ 31) : udxSackTreeFind seq t = sackTreeFind t.toList seq := by
  induction t with
  | leaf => rfl
  | node c l v r ihl ihr =>
    obtain ⟨hl, hr, ⟨hv, hv31⟩, -, -⟩ := h.node
    unfold Apart at hapart
    rw [Tree.toList_node, List.pairwise_append, List.pairwise_cons] at hapart
    obtain ⟨hal, ⟨hafter, har⟩, hbefore⟩ := hapart
    have hstart : seqDiff seq v.start = (off base seq : ℤ) - off base v.start := seqDiff_off hseq (by omega)
    have hstop : seqDiff seq v.stop = (off base seq : ℤ) - off base v.stop := seqDiff_off hseq hv31
    -- a block behind the number is passed over, and so is one that ends before it
    have hskip : ∀ {l' : List SackBlock}, (∀ b ∈ l', b.Spans base ∧
        (off base seq < off base b.start ∨ off base b.stop < off base seq)) → sackTreeFind l' seq = none := by
      intro l' hl'
      refine List.find?_eq_none.mpr fun b hb => ?_
      obtain ⟨⟨hb0, hb31⟩, hout⟩ := hl' b hb
      rw [seqDiff_off hseq (show off base b.start < 2 ^ 31 by omega), seqDiff_off hseq hb31]
      simp only [Bool.and_eq_true, decide_eq_true_eq]
      omega
    unfold udxSackTreeFind
    rw [hstart, hstop, Tree.toList_node, show sackTreeFind (l.toList ++ v :: r.toList) seq =
      (sackTreeFind l.toList seq).or (sackTreeFind (v :: r.toList) seq) from List.find?_append]
    split
    · next hlt =>
      have hnone : sackTreeFind (v :: r.toList) seq = none := by
        refine hskip fun b hb => ?_
        rcases List.mem_cons.mp hb with rfl | hb
        · exact ⟨⟨hv, hv31⟩, .inl (by omega)⟩
        · have hle := hafter b hb
          exact ⟨hr.spans b hb, .inl (by omega)⟩
      rw [hnone, Option.or_none]
      exact ihl hl hal
    · next hge =>
      have hnone : sackTreeFind l.toList seq = none := by
        refine hskip fun b hb => ?_
        have hle := hbefore b hb v List.mem_cons_self
        exact ⟨hl.spans b hb, .inr (by omega)⟩
      rw [hnone, Option.none_or]
      split
      · next hpast =>
        rw [ihr hr har]
        exact (List.find?_cons_of_neg (by simp [hstop]; omega)).symm
      · next hin => exact (List.find?_cons_of_pos (by simp [hstart, hstop]; omega)).symm

theorem sackTreeInsert_split {b : SackBlock} {l₁ l₂ : List SackBlock} (h₁ : ∀ a ∈ l₁, b.startsBefore a = false)
    (h₂ : ∀ a ∈ l₂, b.startsBefore a = true) : sackTreeInsert b (l₁ ++ l₂) = l₁ ++ b :: l₂ := by
  induction l₁ with
  | nil =>
    cases l₂ with
    | nil => rfl
    | cons a l₂ => exact if_pos (of_decide_eq_true (h₂ a List.mem_cons_self))
  | cons a l₁ ih =>
    have hstep : sackTreeInsert b (a :: (l₁ ++ l₂)) = a :: sackTreeInsert b (l₁ ++ l₂) :=
      if_neg (of_decide_eq_false (h₁ a List.mem_cons_self))
    rw [List.cons_append, hstep, ih fun x hx => h₁ x (List.mem_cons_of_mem _ hx)]
    rfl

/-- A block comes to the same place in the tree and in the list. -/
theorem udxSackTreeInsert_toList (h : Blocks base t.toList) {b : SackBlock} (hb : b.Spans base) :
    (udxSackTreeInsert b t).toList = sackTreeInsert b t.toList := by
  obtain ⟨l₁, l₂, hsplit, hinsert, h₁, h₂⟩ := Tree.insert_toList (h.startsBefore_mono hb)
  unfold udxSackTreeInsert
  rw [hinsert, hsplit]
  exact (sackTreeInsert_split h₁ h₂).symm

/-! ### Trees that grow -/

/-- The trees that insertions of disjoint blocks and removals lead to. -/
inductive Grown (base : SeqNo) : RedBlack.Tree SackBlock → Prop
  | init : Grown base .leaf
  | insert {t : RedBlack.Tree SackBlock} (b : SackBlock) (h : Grown base t) (hspan : b.Spans base)
    (hdisjoint : ∀ a ∈ t.toList, off base a.stop ≤ off base b.start ∨ off base b.stop ≤ off base a.start) :
    Grown base (udxSackTreeInsert b t)
  | remove {t : RedBlack.Tree SackBlock} (b : SackBlock) (h : Grown base t) : Grown base (udxSackTreeRemove b t)

theorem Blocks.insert (h : Blocks base t.toList) {b : SackBlock} (hspan : b.Spans base)
    (hdisjoint : ∀ a ∈ t.toList, off base a.stop ≤ off base b.start ∨ off base b.stop ≤ off base a.start) :
    Blocks base (udxSackTreeInsert b t).toList := by
  have hdiff := fun a ha => h.startsBefore_diff hspan (a := a) ha
  obtain ⟨l₁, l₂, hsplit, hinsert, h₁, h₂⟩ := Tree.insert_toList (h.startsBefore_mono hspan)
  have hfront : ∀ a ∈ l₁, off base a.stop ≤ off base b.start := by
    intro a ha
    have hat : a ∈ t.toList := hsplit ▸ List.mem_append_left _ ha
    have hge := h₁ a ha
    rw [SackBlock.startsBefore, hdiff a hat, decide_eq_false_iff_not] at hge
    refine (hdisjoint a hat).resolve_right fun hle => ?_
    have hpos := hspan.1
    omega
  have hback : ∀ a ∈ l₂, off base b.stop ≤ off base a.start := by
    intro a ha
    have hat : a ∈ t.toList := hsplit ▸ List.mem_append_right _ ha
    have hlt := h₂ a ha
    rw [SackBlock.startsBefore, hdiff a hat, decide_eq_true_eq] at hlt
    refine (hdisjoint a hat).resolve_left fun hle => ?_
    have hpos := (h.spans a hat).1
    omega
  have hsorted := h.sorted
  have hspans := h.spans
  rw [hsplit] at hsorted hspans
  obtain ⟨hs₁, hs₂, hs⟩ := List.pairwise_append.mp hsorted
  unfold udxSackTreeInsert
  rw [hinsert]
  refine ⟨fun a ha => ?_, List.pairwise_append.mpr ⟨hs₁, List.pairwise_cons.mpr ⟨hback, hs₂⟩, fun x hx y hy => ?_⟩⟩
  · rcases List.mem_append.mp ha with ha | ha
    · exact hspans a (List.mem_append_left _ ha)
    · rcases List.mem_cons.mp ha with rfl | ha
      · exact hspan
      · exact hspans a (List.mem_append_right _ ha)
  · rcases List.mem_cons.mp hy with rfl | hy
    · exact hfront x hx
    · exact hs x hx y hy

theorem Blocks.remove (h : Blocks base t.toList) (b : SackBlock) : Blocks base (udxSackTreeRemove b t).toList := by
  unfold udxSackTreeRemove
  rcases Tree.remove_toList (fun x => decide (x = b)) t with heq | ⟨l₁, v, l₂, hsplit, -, hremove⟩
  · rw [heq]
    exact h
  · have hsub : List.Sublist (l₁ ++ l₂) t.toList := by
      rw [hsplit]
      exact (List.Sublist.refl l₁).append (List.sublist_cons_self v l₂)
    rw [hremove]
    exact ⟨fun a ha => h.spans a (hsub.subset ha), h.sorted.sublist hsub⟩

theorem Grown.blocks (h : Grown base t) : Blocks base t.toList := by
  induction h with
  | init => exact ⟨by simp, .nil⟩
  | insert b _ hspan hdisjoint ih => exact ih.insert hspan hdisjoint
  | remove b _ ih => exact ih.remove b

end

/-- Three blocks, of which the last two are adjacent. -/
def adjacentTree : RedBlack.Tree SackBlock :=
  udxSackTreeInsert ⟨8, 9, []⟩ (udxSackTreeInsert ⟨6, 8, []⟩ (udxSackTreeInsert ⟨1, 2, []⟩ .leaf))

theorem adjacentTree_grown : Grown 0 adjacentTree := by
  apply Grown.insert
  · apply Grown.insert
    · apply Grown.insert _ .init
      · unfold SackBlock.Spans; decide
      · decide
    · unfold SackBlock.Spans; decide
    · decide
  · unfold SackBlock.Spans; decide
  · decide

theorem udxSackTreeFind_iff_six :
    Answers 0 6 adjacentTree.toList (udxSackTreeFind 6 adjacentTree) ↔
      ¬ ∃ a b, Above a b adjacentTree ∧ a.stop = 6 ∧ b.start = 6 :=
  udxSackTreeFind_iff adjacentTree_grown.blocks (by decide)

/-- The rotation of the last insertion puts the block that ends at 8 above the
one that contains 8. -/
theorem udxSackTreeFind_adjacent : Grown 0 adjacentTree ∧ ⟨8, 9, []⟩ ∈ adjacentTree.toList ∧
    udxSackTreeFind 8 adjacentTree = some ⟨6, 8, []⟩ ∧
    ¬ Answers 0 8 adjacentTree.toList (udxSackTreeFind 8 adjacentTree) := by
  have hfind : udxSackTreeFind 8 adjacentTree = some ⟨6, 8, []⟩ := by decide
  have hmem : (⟨8, 9, []⟩ : SackBlock) ∈ adjacentTree.toList := by decide
  refine ⟨adjacentTree_grown, hmem, hfind, fun h => ?_⟩
  have hcovers : (⟨8, 9, []⟩ : SackBlock).Covers 0 8 := by
    unfold SackBlock.Covers
    decide
  have heq := h.covers _ hmem hcovers
  rw [hfind] at heq
  revert heq
  decide

end Udx
