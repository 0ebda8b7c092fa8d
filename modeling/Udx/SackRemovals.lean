/-
# Removal from the SACK tree (udx_sack_tree.c)

A block with two children gives its place to the next block, which leaves its
own place first. What is left there may lack a black node above it, and is the
sentinel if nothing is left: its parent is where the loop goes on.

Key theorems: `takePlace_spec`, `removeSubst_one`, `removeSubst_two`,
`removeLoop_spec`, `udxSackTreeRemove_spec`.
-/
import Udx.SackNodes

namespace Udx.SackNodes

open RedBlack

/-! ### A block that leaves its place -/

section

variable {h : Heap} {k : Ctx ℕ} {d : Side} {c : Color} {v w s fuel : ℕ} {t l r x : RedBlack.Tree ℕ}

/-- `rbtree_min` is the left-most node. -/
theorem rbtreeMin_spec (hs : h.Shows k t) (ht : t ≠ .leaf) (hfuel : t.toList.length ≤ fuel) :
    ∃ c s r, t.leftmost = some (c, s, r) ∧ rbtreeMin fuel t.ptr h = some s ∧
      h.Shows (t.leftmostCtx k) (.node c .leaf s r) := by
  induction t generalizing k fuel with
  | leaf => exact absurd rfl ht
  | node c l v r ihl =>
    obtain ⟨fuel, rfl⟩ : ∃ m, fuel = m + 1 :=
      Nat.exists_eq_succ_of_ne_zero (by rintro rfl; simp at hfuel)
    have hl : h.Shows (.down .left c v r k) l := Heap.Shows.down.mpr hs
    have hstep : rbtreeMin (fuel + 1) v h = if l.ptr = 0 then some v else rbtreeMin fuel l.ptr h := by
      rw [rbtreeMin, hl.child.1]
      rfl
    rw [show (RedBlack.Tree.node c l v r).ptr = v from rfl, hstep]
    cases l with
    | leaf => exact ⟨c, v, r, rfl, rfl, hs⟩
    | node c' l' v' r' =>
      rw [if_neg (mt hl.ptr_eq_zero.mp nofun)]
      exact ihl hl nofun (by simp at hfuel ⊢; omega)

theorem shows_clearLinks (hs : h.Shows k t) (hv : v ∉ (k.fill t).toList) (hv0 : v ≠ 0) :
    (clearLinks v h).Shows k t ∧ (clearLinks v h).parent 0 = h.parent 0 := by
  have hsame : ∀ u ∈ (k.fill t).toList, Heap.Same h (clearLinks v h) u := by
    intro u hu
    have hne : u ≠ v := by
      rintro rfl
      exact hv hu
    exact ⟨funext fun e => by simp [clearLinks, hne], by simp [clearLinks, hne], rfl⟩
  refine ⟨⟨hs.spine.congr rfl fun u hu => hsame u (Tree.mem_fill.mpr (.inr hu)),
    hs.held.congr fun u hu => hsame u (Tree.mem_fill.mpr (.inl hu)), hs.nodup, hs.nil, hs.black⟩, ?_⟩
  simp [clearLinks, hv0.symm]

theorem replaceAtParent_eq (hk : k ≠ .top) (hv : h.parent v = k.above)
    (hslot : ∀ u e, k.slot = some (u, e) → h.child u e = some v ∧ h.child u e.flip ≠ some v) :
    replaceAtParent v w h = some (h.put k w) := by
  obtain ⟨e, c, u, s, up, rfl⟩ := Ctx.cases_down hk
  obtain ⟨hd, hf⟩ := hslot u e (Ctx.slot_down ..)
  unfold replaceAtParent
  rw [hv, Ctx.above_down]
  cases e with
  | left => simp [hd, Heap.put]
  | right => simp [show h.child u .left ≠ some v from hf, Heap.put]

/-- A node with one child leaves, and the child gets its place. -/
theorem unlinked (hs : h.Shows k (.join d c .leaf v x)) (p : Option ℕ) :
    ((h.put k x.ptr).setParent x.ptr p).Spine k x.ptr ∧ ((h.put k x.ptr).setParent x.ptr p).Held p x := by
  rw [← Tree.join_flip] at hs
  have hx := Heap.Shows.down.mpr hs
  obtain ⟨hnx, hnk, -⟩ := Tree.nodup_fill.mp hx.nodup
  have hxk : ∀ u ∈ k.nodes, u ≠ x.ptr := by
    rintro _ hu rfl
    exact hx.ptr_not_mem (by simp [hu])
  refine ⟨hs.spine.put (Ctx.nodup_nodes_down.mp hnk).2.2.2.1 (by simp [Heap.put_root])
    (fun u hu e => by simp [Heap.put_child]) fun u hu => by simp [hxk u hu], ?_⟩
  refine hx.held.adopt hnx (fun _ => by simp) fun u hu => ⟨funext fun e => ?_, by simp, fun hne => by simp [hne]⟩
  rw [Heap.setParent_child, Heap.put_child, if_neg]
  exact fun hslot => hx.not_mem_nodes hu (by simp [Ctx.slot_mem hslot])

/-- Another node gets the place of `v`, whose right child may have another
parent by now. -/
theorem takePlace_spec {p : Option ℕ} (hspine : h.Spine (.right c l v k) r.ptr) (hr : h.Held p r)
    (hnd : ((Ctx.right c l v k).fill r).toList.Nodup) (hnil : 0 ∉ ((Ctx.right c l v k).fill r).toList)
    (hblack : h.color 0 = .black) (hnew : s ∉ ((Ctx.right c l v k).fill r).toList) (hs0 : s ≠ 0) :
    ∃ h', takePlace v s h = some h' ∧ h'.Shows (.right c l s k) r ∧ h'.parent 0 = h.parent 0 := by
  obtain ⟨hright, hleft, hparent, hcolor, hl, hk⟩ := hspine
  change (k.fill (.join .left c l v r)).toList.Nodup at hnd
  change 0 ∉ (k.fill (.join .left c l v r)).toList at hnil
  change s ∉ (k.fill (.join .left c l v r)).toList at hnew
  obtain ⟨hnt, hnk, hdisj⟩ := Tree.nodup_fill.mp hnd
  obtain ⟨hvl, hvr, hnl, hnr, hlr⟩ := Tree.nodup_join.mp hnt
  simp only [Tree.mem_fill, Tree.mem_join, not_or] at hnew hnil
  obtain ⟨⟨hsv, hsl, hsr⟩, hsk⟩ := hnew
  obtain ⟨⟨hv0, hl0, hr0⟩, hk0⟩ := hnil
  have hvk : v ∉ k.nodes := fun hmem => hdisj (by simp) hmem
  have hlk : ∀ u ∈ l.toList, u ∉ k.nodes := fun u hu hmem => hdisj (by simp [hu]) hmem
  have hrk : ∀ u ∈ r.toList, u ∉ k.nodes := fun u hu hmem => hdisj (by simp [hu]) hmem
  obtain ⟨h₁, hdef₁⟩ : ∃ h₁, h₁ = (((h.setChild s .left (some l.ptr)).setChild s .right (some r.ptr)).setParent s
      k.above).setColor s c := ⟨_, rfl⟩
  have hplace : replaceBlock v s h₁ = some (h₁.put k s) := by
    unfold replaceBlock
    have hroot : v = h₁.root ↔ k = .top := by
      rw [hdef₁]
      exact hk.root_iff hvk
    rcases eq_or_ne k .top with rfl | hne
    · rw [if_pos (hroot.mpr rfl)]
      rfl
    · rw [if_neg (mt hroot.mp hne)]
      refine replaceAtParent_eq hne (by simp [hdef₁, Ne.symm hsv, hparent]) fun u e hslot => ?_
      obtain ⟨e', c', u', s', up, rfl⟩ := Ctx.cases_down hne
      rw [Ctx.slot_down] at hslot
      cases hslot
      obtain ⟨hd, hf, -⟩ := Heap.spine_down.mp hk
      have hus : u ≠ s := by
        rintro rfl
        exact hsk (by simp)
      have hvs : v ≠ s'.ptr := Tree.ne_ptr (fun hmem => hvk (by simp [hmem])) (Ne.symm hv0)
      simp [hdef₁, hus, hd, hf, hvs.symm]
  obtain ⟨h₃, hdef₃⟩ : ∃ h₃, h₃ = if l.ptr ≠ 0 then (h₁.put k s).setParent l.ptr (some s) else h₁.put k s :=
    ⟨_, rfl⟩
  obtain ⟨h₄, hdef₄⟩ : ∃ h₄, h₄ = if r.ptr ≠ 0 then h₃.setParent r.ptr (some s) else h₃ := ⟨_, rfl⟩
  have hrest : h₄.root = (h₁.put k s).root ∧ h₄.child = (h₁.put k s).child ∧ h₄.color = (h₁.put k s).color := by
    rw [hdef₄, hdef₃]
    split <;> split <;> exact ⟨rfl, rfl, rfl⟩
  obtain ⟨hroot, hchild, hcolors⟩ := hrest
  have hparents : ∀ u, u ≠ l.ptr → u ≠ r.ptr → h₄.parent u = if u = s then k.above else h.parent u := by
    intro u hul hur
    rw [hdef₄, hdef₃, hdef₁]
    split <;> split <;> simp [hul, hur]
  have hadoptl : l ≠ .leaf → h₄.parent l.ptr = some s := by
    intro hleaf
    have hmem := Tree.ptr_mem hleaf
    have hlr' : l.ptr ≠ r.ptr := Tree.ne_ptr (hlr hmem) fun hzero => hl0 (hzero ▸ hmem)
    have hl0' : l.ptr ≠ 0 := fun hzero => hl0 (hzero ▸ hmem)
    rw [hdef₄, hdef₃, if_pos hl0']
    split <;> simp [hlr']
  have hadoptr : r ≠ .leaf → h₄.parent r.ptr = some s := by
    intro hleaf
    have hr0' : r.ptr ≠ 0 := fun hzero => hr0 (hzero ▸ Tree.ptr_mem hleaf)
    rw [hdef₄, if_pos hr0']
    simp
  have hchild' : ∀ u e, u ≠ s → h₄.child u e = if k.slot = some (u, e) then some s else h.child u e := by
    intro u e hu
    rw [hchild, Heap.put_child, hdef₁]
    simp [hu]
  have hcolor' : ∀ u, u ≠ s → h₄.color u = h.color u := by
    intro u hu
    simp [hcolors, hdef₁, hu]
  have hbelow : ∀ u, u ∉ k.nodes → u ≠ s → h₄.child u = h.child u ∧ h₄.color u = h.color u := by
    refine fun u hu hus => ⟨funext fun e => ?_, hcolor' u hus⟩
    rw [hchild' u e hus, if_neg fun hslot => hu (Ctx.slot_mem hslot)]
  have hslots : ∀ e, k.slot ≠ some (s, e) := fun e hslot => hsk (Ctx.slot_mem hslot)
  refine ⟨h₄, ?_, (Heap.Shows.down (d := .right)).mpr
    ⟨?_, Heap.held_join.mpr ⟨?_, ?_, ?_, ?_, ?_, ?_⟩, ?_, ?_, ?_⟩, ?_⟩
  · unfold takePlace
    have hcopy : copyLinks v s h = h₁ := by
      rw [hdef₁, copyLinks, hleft, hright, hparent, hcolor]
    have hleft' : (h₁.put k s).child s .left = some l.ptr := by
      rw [Heap.put_child, if_neg (hslots _), hdef₁]
      simp
    have hright' : h₃.child s .right = some r.ptr := by
      have hput : h₃.child = (h₁.put k s).child := by
        rw [hdef₃]
        split <;> rfl
      rw [hput, Heap.put_child, if_neg (hslots _), hdef₁]
      simp
    simp only [hcopy, hplace, Option.bind_eq_bind, Option.bind_some, adoptChild, hleft', ← hdef₃, hright', ← hdef₄]
  · rw [Tree.ptr_join]
    refine hk.put hnk ?_ (fun u hu e => ?_) fun u hu => ?_
    · rw [hroot, Heap.put_root, hdef₁]
      rfl
    · exact hchild' u e (by rintro rfl; exact hsk hu)
    · have hus : u ≠ s := by rintro rfl; exact hsk hu
      have hu0 : u ≠ 0 := by rintro rfl; exact hk0 hu
      rw [hparents u (Tree.ne_ptr (fun hmem => hlk u hmem hu) hu0) (Tree.ne_ptr (fun hmem => hrk u hmem hu) hu0),
        if_neg hus]
      exact ⟨rfl, hcolor' u hus⟩
  · rw [hchild, Heap.put_child, if_neg (hslots _), hdef₁]
    simp
  · rw [hchild, Heap.put_child, if_neg (hslots _), hdef₁]
    simp [Side.flip]
  · rw [hparents s (Tree.ne_ptr hsl hs0) (Tree.ne_ptr hsr hs0), if_pos rfl]
  · simp [hcolors, hdef₁]
  · refine hr.adopt hnr hadoptr fun u hu => ?_
    have hus : u ≠ s := by rintro rfl; exact hsr hu
    obtain ⟨h₁, h₂⟩ := hbelow u (hrk u hu) hus
    refine ⟨h₁, h₂, fun hur => ?_⟩
    rw [hparents u (Tree.ne_ptr (fun hmem => hlr hmem hu) (by rintro rfl; exact hr0 hu)) hur, if_neg hus]
  · refine hl.adopt hnl hadoptl fun u hu => ?_
    have hus : u ≠ s := by rintro rfl; exact hsl hu
    obtain ⟨h₁, h₂⟩ := hbelow u (hlk u hu) hus
    refine ⟨h₁, h₂, fun hul => ?_⟩
    rw [hparents u hul (Tree.ne_ptr (fun hmem => hlr hu hmem) (by rintro rfl; exact hl0 hu)), if_neg hus]
  · refine Tree.nodup_fill.mpr ⟨Tree.nodup_join.mpr ⟨hsr, hsl, hnr, hnl, fun u hu hu' => hlr hu' hu⟩, hnk, ?_⟩
    intro u hu
    simp only [Tree.mem_join] at hu
    rcases hu with rfl | hu | hu
    · exact hsk
    · exact hrk u hu
    · exact hlk u hu
  · simp only [Tree.mem_fill, Tree.mem_join, not_or]
    exact ⟨⟨Ne.symm hs0, hr0, hl0⟩, hk0⟩
  · rw [hcolor' 0 (Ne.symm hs0), hblack]
  · have hguard : ∀ (g : Heap) (q : ℕ), (if q ≠ 0 then g.setParent q (some s) else g).parent 0 = g.parent 0 := by
      intro g q
      split
      · next hq => simp [Ne.symm hq]
      · rfl
    rw [hdef₄, hguard, hdef₃, hguard]
    simp [hdef₁, Ne.symm hs0]

end

/-! ### Re-balancing after a removal -/

section

variable {h : Heap} {k up : Ctx ℕ} {d : Side} {c pc : Color} {v wv pv fuel n : ℕ}
  {t w p near far x y : RedBlack.Tree ℕ}

/-- What is read of the sibling. -/
theorem shows_sibling (hs : h.Shows (.down d pc pv (.join d c near wv far) up) t) :
    h.child wv d = some near.ptr ∧ h.child wv d.flip = some far.ptr ∧
      (h.color near.ptr = .black ↔ near.isRed = false) ∧ (h.color far.ptr = .black ↔ far.isRed = false) := by
  have hnear := Heap.Shows.down.mpr (Heap.Shows.other.mp hs)
  exact ⟨hnear.child.1, hnear.child.2, hnear.isBlack, (Heap.Shows.other.mp hnear).isBlack⟩

/-- The sibling gets another colour. -/
theorem shows_paintSibling (hs : h.Shows (.down d pc pv (.join d c near wv far) up) t) (c' : Color) :
    (h.setColor wv c').Shows (.down d pc pv (.join d c' near wv far) up) t := by
  have hw := (Heap.Shows.other.mp hs).paint Tree.join_ne_leaf c'
  rw [Tree.ptr_join, Tree.paint_join] at hw
  simpa using Heap.Shows.other.mp hw

theorem shows_paintFar (hs : h.Shows (.down d pc pv (.join d c near wv far) up) t) :
    (h.setColor far.ptr .black).Shows (.down d pc pv (.join d c near wv (far.paint .black)) up) t := by
  have hw := Heap.Shows.other.mp hs
  rw [← Tree.join_flip] at hw
  have hfar := Heap.Shows.down.mp (Heap.Shows.down.mpr hw).paint_black
  rw [Tree.join_flip] at hfar
  simpa using Heap.Shows.other.mp hfar

theorem removeRotate_spec (hs : h.Shows (.down d pc pv (.join d .black near wv far) up) t)
    (hzero : t = .leaf → h.parent 0 = some pv) : ∃ h', removeRotate d t.ptr wv h = some (h'.root, h') ∧
      h'.Shows up (.join d pc (.join d .black t pv near) wv (far.paint .black)) := by
  have hparent : h.parent t.ptr = some pv := by
    rw [hs.parent_of_zero (by simpa using hzero), Ctx.above_down]
  have hcolor : h.color pv = pc := (Heap.held_join.mp (Heap.Shows.down.mp hs).held).2.2.2.1
  have hblack : ((h.setColor wv pc).setColor pv .black).Shows
      (.down d .black pv (.join d pc near wv far) up) t := by
    have hpaint := (Heap.Shows.down.mp (shows_paintSibling hs pc)).paint Tree.join_ne_leaf .black
    rw [Tree.ptr_join, Tree.paint_join] at hpaint
    exact Heap.Shows.down.mpr hpaint
  have hfar := Heap.Shows.down.mp (shows_paintFar hblack)
  obtain ⟨h', hrot, hs', -⟩ := hfar.rotate
  refine ⟨h', ?_, hs'⟩
  unfold removeRotate
  simp [hparent, hcolor, (shows_sibling hs).2.1, hrot]

/-- Both children of the sibling are black. -/
theorem removeSibling_none (hs : h.Shows (.down d pc pv (.join d .black near wv far) up) t)
    (hzero : t = .leaf → h.parent 0 = some pv) (hnear : near.isRed = false) (hfar : far.isRed = false) :
    ∃ h', removeSibling d t.ptr wv h = some (pv, h') ∧
      h'.Shows up (.join d pc t pv ((Tree.join d .black near wv far).paint .red)) := by
  obtain ⟨hn, hf, hnb, hfb⟩ := shows_sibling hs
  have hparent : h.parent t.ptr = some pv := by
    rw [hs.parent_of_zero (by simpa using hzero), Ctx.above_down]
  refine ⟨h.setColor wv .red, ?_, ?_⟩
  · unfold removeSibling
    simp [hn, hf, hnb.mpr hnear, hfb.mpr hfar, hparent]
  · rw [Tree.paint_join]
    exact Heap.Shows.down.mp (shows_paintSibling hs .red)

/-- A red child of the sibling takes part in the rotation. -/
theorem removeSibling_some (hs : h.Shows (.down d pc pv (.join d .black near wv far) up) t)
    (hzero : t = .leaf → h.parent 0 = some pv) (hp : Tree.borrow d pc pv t (.join d .black near wv far) = some p) :
    ∃ h', removeSibling d t.ptr wv h = some (h'.root, h') ∧ h'.Shows up p := by
  obtain ⟨hn, hf, hnb, hfb⟩ := shows_sibling hs
  cases hfar : far.isRed with
  | true =>
    rw [Tree.borrow_far d pc .black pv wv t near hfar] at hp
    obtain ⟨h', hrot, hs'⟩ := removeRotate_spec hs hzero
    refine ⟨h', ?_, Option.some.inj hp ▸ hs'⟩
    have hcolor : h.color far.ptr ≠ .black := by
      rw [ne_eq, hfb, hfar]
      exact Bool.noConfusion
    unfold removeSibling
    simp [hn, hf, hcolor, hrot]
  | false =>
    cases hnear : near.isRed with
    | false =>
      rw [Tree.borrow_none d pc .black pv wv t hnear hfar] at hp
      cases hp
    | true =>
      obtain ⟨x, v, y, rfl⟩ := Tree.exists_red d hnear
      rw [Tree.borrow_near d pc .black pv wv v t x y hfar] at hp
      have hnode := (Heap.Shows.down.mpr (Heap.Shows.other.mp hs)).paint Tree.join_ne_leaf .black
      rw [Tree.ptr_join, Tree.paint_join] at hnode
      have hred := (Heap.Shows.down.mp hnode).paint Tree.join_ne_leaf .red
      rw [Tree.ptr_join, Tree.paint_join, ← Tree.join_flip, ← Tree.join_flip d .black] at hred
      obtain ⟨h₁, hrot, hs₁, hzero₁⟩ := hred.rotate
      rw [Tree.join_flip, Tree.join_flip] at hs₁
      have hplace : h₁.Shows (.down d pc pv (.join d .black x v (.join d .red y wv far)) up) t := by
        simpa using Heap.Shows.other.mp hs₁
      have hzero' : t = .leaf → h₁.parent 0 = some pv := fun ht => hzero₁.trans (hzero ht)
      have hparent : h₁.parent t.ptr = some pv := by
        rw [hplace.parent_of_zero (by simpa using hzero'), Ctx.above_down]
      have hchild := hplace.child.2
      rw [Tree.ptr_join] at hchild hn hnb
      obtain ⟨h', hrot', hs'⟩ := removeRotate_spec hplace hzero'
      rw [Tree.paint_join] at hs'
      refine ⟨h', ?_, Option.some.inj hp ▸ hs'⟩
      have hcolor : h.color v ≠ .black := by
        rw [ne_eq, hnb]
        simp
      unfold removeSibling
      simp [hn, hf, hcolor, hfb.mpr hfar, hrot, hparent, hchild, hrot']

/-- A black sibling. -/
theorem removeTurn_black (hs : h.Shows (.down d pc pv (.join d .black near wv far) up) t)
    (hzero : t = .leaf → h.parent 0 = some pv) : removeTurn d t.ptr h = removeSibling d t.ptr wv h := by
  have hparent : h.parent t.ptr = some pv := by
    rw [hs.parent_of_zero (by simpa using hzero), Ctx.above_down]
  have hchild := hs.child.2
  rw [Tree.ptr_join] at hchild
  have hcolor : h.color wv ≠ .red := by
    have hiff := (Heap.Shows.other.mp hs).isRed
    rw [Tree.ptr_join] at hiff
    rw [ne_eq, hiff]
    simp
  unfold removeTurn
  simp [hparent, hchild, hcolor]

/-- A red sibling gets the place of the parent, which becomes red. -/
theorem removeTurn_red (hs : h.Shows (.down d .black pv (.join d .red near wv far) up) t)
    (hzero : t = .leaf → h.parent 0 = some pv) : ∃ h', removeTurn d t.ptr h = removeSibling d t.ptr near.ptr h' ∧
      h'.Shows (.down d .red pv near (.down d .black wv far up)) t ∧ (t = .leaf → h'.parent 0 = some pv) := by
  have hparent : h.parent t.ptr = some pv := by
    rw [hs.parent_of_zero (by simpa using hzero), Ctx.above_down]
  have hchild := hs.child.2
  rw [Tree.ptr_join] at hchild
  have hcolor : h.color wv = .red := by
    have hiff := (Heap.Shows.other.mp hs).isRed
    rw [Tree.ptr_join] at hiff
    exact hiff.mpr (by simp)
  have hpaint := (Heap.Shows.down.mp (shows_paintSibling hs .black)).paint Tree.join_ne_leaf .red
  rw [Tree.ptr_join, Tree.paint_join] at hpaint
  obtain ⟨h₁, hrot, hs₁, hzero₁⟩ := hpaint.rotate
  have hplace := Heap.Shows.down.mpr (Heap.Shows.down.mpr hs₁)
  have hzero' : t = .leaf → h₁.parent 0 = some pv := fun ht => hzero₁.trans (hzero ht)
  have hparent' : h₁.parent t.ptr = some pv := by
    rw [hplace.parent_of_zero (by simpa using hzero'), Ctx.above_down]
  refine ⟨h₁, ?_, hplace, hzero'⟩
  unfold removeTurn
  simp [hparent, hchild, hcolor, hrot, hparent', hplace.child.2]

/-- A turn of the loop below the root. -/
theorem removeLoop_turn {r : ℕ × Heap} (hs : h.Shows (.down d pc pv w up) t) (hw : w ≠ .leaf)
    (hblack : t.isRed = false) (hzero : t = .leaf → h.parent 0 = some pv) (hturn : removeTurn d t.ptr h = some r) :
    removeLoop (fuel + 1) t.ptr h = removeLoop fuel r.1 r.2 := by
  have hparent : h.parent t.ptr = some pv := by
    rw [hs.parent_of_zero (by simpa using hzero), Ctx.above_down]
  have hroot : t.ptr ≠ h.root := by
    rw [ne_eq, hs.root_iff]
    exact Ctx.down_ne_top
  rw [removeLoop, if_pos ⟨hroot, hs.isBlack.mpr hblack⟩]
  simp [hparent, hs.side (.inr hw), hturn]

/-- The loop ends at the root and at a red node. -/
theorem removeLoop_end (hs : h.Shows k t) (hend : k = .top ∨ t.isRed = true) (hfuel : 0 < fuel) :
    ∃ h', removeLoop fuel t.ptr h = some h' ∧ h'.Shows k (t.paint .black) := by
  obtain ⟨fuel, rfl⟩ := Nat.exists_eq_succ_of_ne_zero (Nat.ne_of_gt hfuel)
  refine ⟨h.setColor t.ptr .black, ?_, hs.paint_black⟩
  rw [removeLoop, if_neg]
  rw [ne_eq, hs.root_iff, hs.isBlack]
  rcases hend with hk | hr
  · simp [hk]
  · simp [hr]

/-- The loop ends after a rotation, at the root. -/
theorem removeLoop_root (hs : h.Shows k t) (hfuel : 0 < fuel) :
    ∃ h', removeLoop fuel h.root h = some h' ∧ h'.Shows .top ((k.fill t).paint .black) := by
  have htop := Heap.Shows.fill.mpr hs
  rw [show h.root = (k.fill t).ptr from htop.spine]
  exact removeLoop_end htop (.inl rfl) hfuel

/-- The loop repairs the tree. -/
theorem removeLoop_spec (hs : h.Shows k t) (hk : k.Ruled (n + 1)) (ht : t.Ruled n)
    (hzero : t = .leaf → h.parent 0 = k.above) (hfuel : k.nodes.length + 1 < fuel) :
    ∃ h', removeLoop fuel t.ptr h = some h' ∧ h'.Shows .top (Tree.removeFix k t) := by
  induction k using Ctx.sides generalizing h t n fuel with
  | top => exact removeLoop_end hs (.inl rfl) (Nat.zero_lt_of_lt hfuel)
  | down d pc pv w up ih =>
    have hzero' : t = .leaf → h.parent 0 = some pv := by simpa using hzero
    obtain ⟨fuel, rfl⟩ := Nat.exists_eq_succ_of_ne_zero (Nat.ne_of_gt (Nat.zero_lt_of_lt hfuel))
    have hlen : up.nodes.length + 1 < fuel := by
      simp only [Ctx.length_nodes_down] at hfuel
      omega
    have hpos : 0 < fuel := Nat.zero_lt_of_lt hlen
    cases hb : t.isRed with
    | true =>
      rw [Tree.removeFix_red d pc pv t w up hb, ← Ctx.fill_down]
      obtain ⟨h', hloop, hs'⟩ := removeLoop_end hs (.inr hb) (Nat.succ_pos fuel)
      exact ⟨h', hloop, Heap.Shows.fill.mpr hs'⟩
    | false =>
      cases hw : w.isRed with
      | true =>
        obtain ⟨near, wv, far, rfl⟩ := Tree.exists_red d hw
        cases pc with
        | red => simp at hk
        | black =>
          obtain ⟨hwn, hup⟩ := Ctx.ruled_black.mp hk
          obtain ⟨⟨hnear, hfar⟩, hnearn, hfarn⟩ := Tree.ruled_red.mp hwn
          obtain ⟨nn, nv, nf, rfl, hnn, hnf⟩ := Tree.exists_black d hnearn hnear
          obtain ⟨h₁, hturn, hs₁, hzero₁⟩ := removeTurn_red hs hzero'
          rw [Tree.ptr_join] at hturn
          rw [Tree.removeFix_redSibling d .black pv wv t _ far up hb]
          rcases ht.borrow d .red pv nv hnn hnf with ⟨p, x, v, y, heq, -, -, -, -⟩ | ⟨heq, hnnb, hnfb⟩
          · obtain ⟨h₂, hsib, hs₂⟩ := removeSibling_some hs₁ hzero₁ heq
            obtain ⟨h', hloop, hs'⟩ := removeLoop_root hs₂ hpos
            rw [removeLoop_turn hs Tree.join_ne_leaf hb hzero' (hturn.trans hsib), heq]
            exact ⟨h', hloop, by rwa [Ctx.fill_down] at hs'⟩
          · obtain ⟨h₂, hsib, hs₂⟩ := removeSibling_none hs₁ hzero₁ hnnb hnfb
            obtain ⟨h', hloop, hs'⟩ := removeLoop_end hs₂ (.inr (by simp)) hpos
            rw [Tree.ptr_join] at hloop
            rw [removeLoop_turn hs Tree.join_ne_leaf hb hzero' (hturn.trans hsib), heq]
            refine ⟨h', hloop, ?_⟩
            have hfill := Heap.Shows.fill.mpr hs'
            rwa [Tree.paint_join, Ctx.fill_down] at hfill
      | false =>
        rw [Tree.removeFix_blackSibling d pc pv t up hb hw]
        have hwn : w.Ruled (n + 1) := by
          cases pc with
          | red => exact (Ctx.ruled_red.mp hk).2.1
          | black => exact (Ctx.ruled_black.mp hk).1
        obtain ⟨near, wv, far, rfl, hnear, hfar⟩ := Tree.exists_black d hwn hw
        have hturn := removeTurn_black hs hzero'
        rcases ht.borrow d pc pv wv hnear hfar with ⟨p, x, v, y, heq, -, -, -, -⟩ | ⟨heq, hnb, hfb⟩
        · obtain ⟨h₂, hsib, hs₂⟩ := removeSibling_some hs hzero' heq
          rw [removeLoop_turn hs Tree.join_ne_leaf hb hzero' (hturn.trans hsib), heq]
          exact removeLoop_root hs₂ hpos
        · obtain ⟨h₂, hsib, hs₂⟩ := removeSibling_none hs hzero' hnb hfb
          rw [removeLoop_turn hs Tree.join_ne_leaf hb hzero' (hturn.trans hsib), heq]
          cases pc with
          | red =>
            -- the parent becomes black, and the loop ends
            obtain ⟨-, -, hadmit, -⟩ := Ctx.ruled_red.mp hk
            obtain ⟨d', c', v', s', up', rfl⟩ := Ctx.cases_down (k := up) (by rintro rfl; cases hadmit)
            obtain ⟨h', hloop, hs'⟩ := removeLoop_end hs₂ (.inr (by simp)) hpos
            rw [Tree.ptr_join] at hloop
            rw [Tree.removeFix_red d' c' v' _ s' up' (by simp), ← Ctx.fill_down]
            exact ⟨h', hloop, Heap.Shows.fill.mpr hs'⟩
          | black =>
            have hih := ih hs₂ (Ctx.ruled_black.mp hk).2 (by simp [ht, hnear, hfar, hnb, hfb])
              (fun hleaf => absurd hleaf Tree.join_ne_leaf) hlen
            rwa [Tree.ptr_join] at hih

end

/-! ### Removal in memory -/

section

variable {h : Heap} {k : Ctx ℕ} {d : Side} {c : Color} {v fuel n : ℕ} {t l r x : RedBlack.Tree ℕ}

/-- What follows when the links are right again. -/
theorem removeSubst_end (hs : h.Shows k x) (hk : k.Ruled n) (hx : (Tree.join d c .leaf v x).Ruled n)
    (hne : k ≠ .top) (hzero : x = .leaf → h.parent 0 = k.above) (hfuel : k.nodes.length + 1 < fuel) :
    ∃ h', (if c = .red then some h else removeLoop fuel x.ptr h) = some h' ∧
      h'.Shows .top (Tree.unlink c k x) := by
  have hunlink : Tree.unlink c k x = if c = .red then k.fill x else Tree.removeFix k x := by
    unfold Tree.unlink
    split
    · exact absurd rfl hne
    · rfl
  rw [hunlink]
  cases c with
  | red => exact ⟨h, rfl, Heap.Shows.fill.mpr hs⟩
  | black =>
    obtain ⟨m, rfl, -, hxm⟩ := hx.black
    exact removeLoop_spec hs hk hxm hzero hfuel

theorem unlink_ne_nil (hne : k ≠ .top) : (Tree.unlink c k x).toList ≠ [] := by
  rw [Tree.unlink_toList]
  intro hnil
  refine hne (Ctx.nodes_eq_nil ?_)
  simp only [List.append_eq_nil_iff] at hnil
  simp [Ctx.nodes, hnil.1.1, hnil.2]

/-- A block with at most one child. -/
theorem removeSubst_one (hs : h.Shows k (.join d c .leaf v x)) (hk : k.Ruled n)
    (hx : (Tree.join d c .leaf v x).Ruled n) (hfuel : k.nodes.length + 1 < fuel) :
    ∃ h', removeSubst fuel v x.ptr v h = some h' ∧ h'.Shows .top (Tree.unlink c k x) ∧
      h'.parent h'.root = none := by
  obtain ⟨hnt, hnk, hdisj⟩ := Tree.nodup_fill.mp hs.nodup
  obtain ⟨-, hvx, -, hnx, -⟩ := Tree.nodup_join.mp hnt
  have hnil := hs.nil
  simp only [Tree.mem_fill, Tree.mem_join, not_or] at hnil
  have hv0 : v ≠ 0 := Ne.symm hnil.1.1
  have hvk : v ∉ (k.fill x).toList := by
    rw [Tree.mem_fill, not_or]
    exact ⟨hvx, fun hmem => hdisj (by simp) hmem⟩
  have hnew : ∀ g : Heap, g.Spine k x.ptr → g.Held k.above x → g.color 0 = .black → g.Shows k x := by
    refine fun g hspine hheld hblack =>
      ⟨hspine, hheld, Tree.nodup_fill.mpr ⟨hnx, hnk, fun u hu => hdisj (by simp [hu])⟩, ?_, hblack⟩
    rw [Tree.mem_fill, not_or]
    exact ⟨hnil.1.2.2, hnil.2⟩
  obtain ⟨hspine, hheld⟩ := unlinked hs k.above
  have hshows := hnew _ hspine hheld (by simp [hs.black])
  have hroot := hs.root_iff
  rw [Tree.ptr_join] at hroot
  unfold removeSubst
  rcases eq_or_ne k .top with rfl | hne
  · rw [if_pos (hroot.mpr rfl)]
    have hpaint := hshows.paint_black
    obtain ⟨hs', -⟩ := shows_clearLinks hpaint (by simpa [Ctx.fill] using hvx) hv0
    refine ⟨_, rfl, hs', ?_⟩
    simp [clearLinks]
  · rw [if_neg (mt hroot.mp hne)]
    have hreplace : replaceAtParent v x.ptr h = some (h.put k x.ptr) := by
      have hp := hs.parent Tree.join_ne_leaf
      rw [Tree.ptr_join] at hp
      refine replaceAtParent_eq hne hp fun u e hslot => ?_
      simpa using hs.slot Tree.join_ne_leaf hslot
    have hparent : (h.put k x.ptr).parent v = k.above := by
      have hp := hs.parent Tree.join_ne_leaf
      rwa [Tree.ptr_join, ← Heap.put_parent k x.ptr] at hp
    have hcolor : h.color v = c := (Heap.held_join.mp hs.held).2.2.2.1
    obtain ⟨hs', hzero⟩ := shows_clearLinks hshows hvk hv0
    obtain ⟨h', hend, hs''⟩ := removeSubst_end hs' hk hx hne (fun hleaf => by rw [hzero, hleaf]; simp) hfuel
    refine ⟨h', ?_, hs'', hs''.root_parent (unlink_ne_nil hne)⟩
    simp only [hreplace, Option.bind_eq_bind, Option.bind_some, relinkSubst, if_true, hparent, hcolor]
    exact hend

/-- The place of the next block is below the right child, or it is that child. -/
theorem leftmostCtx_above {r : RedBlack.Tree ℕ} (hr : r ≠ .leaf) :
    (∀ k x, r.leftmostCtx k = k ∧ r.withMin x = x) ∨ ∃ u ∈ r.toList, ∀ k, (r.leftmostCtx k).above = some u := by
  induction r with
  | leaf => exact absurd rfl hr
  | node c l v r ihl =>
    cases l with
    | leaf => exact .inl fun k x => ⟨rfl, rfl⟩
    | node c' l' v' r' =>
      right
      rcases ihl nofun with h | ⟨u, hu, h⟩
      · refine ⟨v, by simp, fun k => ?_⟩
        rw [show (RedBlack.Tree.node c (.node c' l' v' r') v r).leftmostCtx k =
          (RedBlack.Tree.node c' l' v' r').leftmostCtx (.left c v r k) from rfl, (h _ .leaf).1]
        rfl
      · exact ⟨u, by simp at hu ⊢; grind, fun k => h _⟩

/-- A block with two children: the next block leaves its own place first. -/
theorem removeSubst_two {cs : Color} {s : ℕ} {rs : RedBlack.Tree ℕ} (hs : h.Shows k (.node c l v r))
    (hr : r ≠ .leaf) (hmin : r.leftmost = some (cs, s, rs))
    (hplace : h.Shows (r.leftmostCtx (.right c l v k)) (.node cs .leaf s rs))
    (hk : (r.leftmostCtx (.right c l s k)).Ruled n) (hx : (RedBlack.Tree.node cs .leaf s rs).Ruled n)
    (hfuel : (k.fill (.node c l v r)).toList.length < fuel) :
    ∃ h', removeSubst fuel v rs.ptr s h = some h' ∧
      h'.Shows .top (Tree.unlink cs (r.leftmostCtx (.right c l s k)) rs) ∧ h'.parent h'.root = none := by
  have hjoin : h.Shows (r.leftmostCtx (.right c l v k)) (.join .left cs .leaf s rs) := hplace
  obtain ⟨hnt, hnkr, hdisj⟩ := Tree.nodup_fill.mp hjoin.nodup
  obtain ⟨-, hsrs, -, hnrs, -⟩ := Tree.nodup_join.mp hnt
  have hnil := hjoin.nil
  simp only [Tree.mem_fill, Tree.mem_join, not_or] at hnil
  have hs0 : s ≠ 0 := Ne.symm hnil.1.1
  -- the tree without the next block
  have hrest : (Ctx.right c l v k).fill (r.withMin rs) = (r.leftmostCtx (.right c l v k)).fill rs :=
    (Tree.leftmostCtx_fill ..).symm
  have hnd : ((Ctx.right c l v k).fill (r.withMin rs)).toList.Nodup := by
    rw [hrest]
    exact Tree.nodup_fill.mpr ⟨hnrs, hnkr, fun u hu => hdisj (by simp [hu])⟩
  have hnil' : 0 ∉ ((Ctx.right c l v k).fill (r.withMin rs)).toList := by
    rw [hrest, Tree.mem_fill, not_or]
    exact ⟨hnil.1.2.2, hnil.2⟩
  have hnew : s ∉ ((Ctx.right c l v k).fill (r.withMin rs)).toList := by
    rw [hrest, Tree.mem_fill, not_or]
    exact ⟨hsrs, fun hmem => hdisj (by simp) hmem⟩
  have hout : v ∉ l.toList ∧ v ∉ (r.withMin rs).toList ∧ v ∉ k.nodes := by
    obtain ⟨hnt', -, hdisj'⟩ := Tree.nodup_fill.mp
      (show (k.fill (.join .left c l v (r.withMin rs))).toList.Nodup from hnd)
    obtain ⟨hvl, hvr, -⟩ := Tree.nodup_join.mp hnt'
    exact ⟨hvl, hvr, fun hmem => hdisj' (by simp) hmem⟩
  have hvs : s ≠ v := by
    rintro rfl
    exact hnew (Tree.mem_fill.mpr (.inr (by simp [Ctx.nodes, Ctx.before])))
  have hv0 : v ≠ 0 := by
    rintro rfl
    exact hs.nil (Tree.mem_fill.mpr (.inl (by simp)))
  have hvr : v ∉ r.toList := by
    obtain ⟨hnt', -, -⟩ := Tree.nodup_fill.mp (show (k.fill (.join .left c l v r)).toList.Nodup from hs.nodup)
    exact (Tree.nodup_join.mp hnt').2.1
  have hblack : ∀ p, ((h.put (r.leftmostCtx (.right c l v k)) rs.ptr).setParent rs.ptr p).color 0 = .black := by
    simp [hplace.black]
  obtain ⟨par, hpar⟩ : ∃ par, par = if (r.leftmostCtx (.right c l v k)).above = some v then some s
      else (r.leftmostCtx (.right c l v k)).above := ⟨_, rfl⟩
  obtain ⟨hspine, hheld⟩ := unlinked hjoin par
  obtain ⟨hne, hne', hspine', ⟨p, hheld'⟩, habove⟩ : r.leftmostCtx (.right c l v k) ≠ .top ∧
      r.leftmostCtx (.right c l s k) ≠ .top ∧
      ((h.put (r.leftmostCtx (.right c l v k)) rs.ptr).setParent rs.ptr par).Spine (.right c l v k)
        (r.withMin rs).ptr ∧
      (∃ p, ((h.put (r.leftmostCtx (.right c l v k)) rs.ptr).setParent rs.ptr par).Held p (r.withMin rs)) ∧
      par = (r.leftmostCtx (.right c l s k)).above := by
    rcases leftmostCtx_above hr with hsame | ⟨u, hu, hup⟩
    · rw [(hsame (.right c l v k) rs).1, (hsame (.right c l v k) rs).2] at *
      rw [(hsame (.right c l s k) rs).1]
      refine ⟨Ctx.down_ne_top (d := .right), Ctx.down_ne_top (d := .right), hspine, ⟨par, hheld⟩, ?_⟩
      rw [hpar]
      simp [Ctx.above]
    · have huv : u ≠ v := by
        rintro rfl
        exact hvr hu
      have hpu : par = some u := by
        rw [hpar, hup, if_neg (by simp [huv])]
      have hshows : ((h.put (r.leftmostCtx (.right c l v k)) rs.ptr).setParent rs.ptr par).Shows
          (r.leftmostCtx (.right c l v k)) rs := by
        refine ⟨hspine, ?_, hrest ▸ hnd, hrest ▸ hnil', hblack par⟩
        rw [hup, ← hpu]
        exact hheld
      have hzoom := Heap.Shows.leftmost.mp hshows
      refine ⟨?_, ?_, hzoom.spine, ⟨_, hzoom.held⟩, by rw [hpu, hup]⟩
      · intro htop
        have hab := hup (.right c l v k)
        rw [htop] at hab
        cases hab
      · intro htop
        have hab := hup (.right c l s k)
        rw [htop] at hab
        cases hab
  obtain ⟨h₂, htake, hs₂, hzero₂⟩ := takePlace_spec hspine' hheld' hnd hnil' (hblack par) hnew hs0
  have hshows₂ := Heap.Shows.leftmost.mpr hs₂
  have hv₂ : v ∉ ((r.leftmostCtx (.right c l s k)).fill rs).toList := by
    rw [Tree.leftmostCtx_fill]
    change v ∉ (k.fill (.join .left c l s (r.withMin rs))).toList
    simp only [Tree.mem_fill, Tree.mem_join, not_or]
    exact ⟨⟨Ne.symm hvs, hout.1, hout.2.1⟩, hout.2.2⟩
  obtain ⟨hs₃, hzero₃⟩ := shows_clearLinks hshows₂ hv₂ hv0
  have hlen : (r.leftmostCtx (.right c l s k)).nodes.length + 1 < fuel := by
    obtain ⟨hbefore, hafter⟩ := Tree.leftmost_toList hmin (.right c l s k)
    have hcount := congrArg List.length hafter
    rw [Tree.length_fill] at hfuel
    simp only [Ctx.nodes, List.length_append, List.length_cons, Tree.toList_node, hbefore, Ctx.before, Ctx.after,
      List.length_nil] at hcount hfuel ⊢
    omega
  have hzero : rs = .leaf → (clearLinks v h₂).parent 0 = (r.leftmostCtx (.right c l s k)).above := by
    rintro rfl
    rw [hzero₃, hzero₂, ← habove]
    simp
  obtain ⟨h', hend, hs'⟩ := removeSubst_end (d := .left) hs₃ hk hx hne' hzero hlen
  have hroot : s ≠ h.root := by
    have hiff := hplace.root_iff
    rw [ne_eq, show s = (RedBlack.Tree.node cs .leaf s rs).ptr from rfl, hiff]
    exact hne
  have hparent : h.parent s = (r.leftmostCtx (.right c l v k)).above :=
    hplace.parent (Tree.join_ne_leaf (d := .left))
  have hcolor : h.color s = cs := (Heap.held_join.mp hjoin.held).2.2.2.1
  have hreplace : replaceAtParent s rs.ptr h = some (h.put (r.leftmostCtx (.right c l v k)) rs.ptr) :=
    replaceAtParent_eq hne hparent fun u e hslot => by simpa using hjoin.slot Tree.join_ne_leaf hslot
  refine ⟨h', ?_, hs', hs'.root_parent (unlink_ne_nil hne')⟩
  unfold removeSubst
  rw [if_neg hroot]
  simp only [hreplace, Option.bind_eq_bind, Option.bind_some, relinkSubst, if_neg hvs, Heap.put_parent, hparent,
    ← hpar, htake, hcolor]
  exact hend

/-- A removal in memory is the removal from the tree. -/
theorem udxSackTreeRemove_spec {block : ℕ} (hs : h.Shows .top t) (ht : t.Sound) (hblock : block ∈ t.toList)
    (hfuel : t.toList.length < fuel) : ∃ h', udxSackTreeRemove fuel block h = some h' ∧
      h'.Shows .top (t.remove (· = block)) ∧ h'.parent h'.root = none := by
  obtain ⟨⟨k, u⟩, hfocus⟩ := Tree.exists_focus (p := (· = block)) hblock (by simp) .top
  obtain ⟨hfill, -⟩ := Tree.focus_fill hfocus
  obtain ⟨c, l, v, r, rfl, hv, -⟩ := Tree.focus_toList hfocus
  obtain rfl : v = block := of_decide_eq_true hv
  obtain rfl : k.fill (.node c l v r) = t := hfill
  have hremove : (k.fill (.node c l v r)).remove (· = v) = Tree.removeAt k (.node c l v r) := by
    unfold Tree.remove
    rw [hfocus]
  rw [hremove]
  obtain ⟨n, hk, hn, hred⟩ := Ctx.exists_ruled ht
  have hshows : h.Shows k (.node c l v r) := Heap.Shows.fill.mp hs
  obtain ⟨hleft, hright, -⟩ := Heap.held_join.mp (show h.Held k.above (.join .left c l v r) from hshows.held)
  have hl := (Heap.Shows.down (d := .left) (s := r)).mpr hshows
  have hr := (Heap.Shows.down (d := .right) (s := l)).mpr hshows
  have hlen : k.nodes.length + 1 < fuel := by
    rw [Tree.length_fill] at hfuel
    simp at hfuel
    omega
  unfold udxSackTreeRemove
  rcases eq_or_ne l .leaf with rfl | hlne
  · have hchoose : chooseSubst fuel v h = some (r.ptr, v) := by
      simp [chooseSubst, hleft, hr.child.1]
    obtain ⟨h', hrem, hs', hroot⟩ := removeSubst_one (d := .left) hshows hk hn hlen
    rw [← Tree.removeAt_one .left k c v r] at hs'
    exact ⟨h', by simpa [hchoose] using hrem, hs', hroot⟩
  · have hl0 : l.ptr ≠ 0 := mt hl.ptr_eq_zero.mp hlne
    rcases eq_or_ne r .leaf with rfl | hrne
    · have hchoose : chooseSubst fuel v h = some (l.ptr, v) := by
        simp [chooseSubst, hleft, hr.child.1, hl0]
      have hn' : (Tree.join .right c .leaf v l).Ruled n := by
        rw [← Tree.join_flip]
        exact hn
      have hshows' : h.Shows k (.join .right c .leaf v l) := hshows
      obtain ⟨h', hrem, hs', hroot⟩ := removeSubst_one hshows' hk hn' hlen
      rw [← Tree.removeAt_one .right k c v l] at hs'
      exact ⟨h', by simpa [hchoose] using hrem, hs', hroot⟩
    · have hrlen : r.toList.length ≤ fuel := by
        rw [Tree.length_fill] at hfuel
        simp at hfuel
        omega
      obtain ⟨cs, s, rs, hmin, hsubst, hplace⟩ := rbtreeMin_spec hr hrne hrlen
      have hr0 : r.ptr ≠ 0 := mt hr.ptr_eq_zero.mp hrne
      have hrs := ((Heap.Shows.down (d := .right) (s := .leaf)).mpr hplace).child.1
      have hchoose : chooseSubst fuel v h = some (rs.ptr, s) := by
        simp [chooseSubst, hleft, hr.child.1, hl0, hr0, hsubst, hrs]
      obtain ⟨m, hkm, hxm⟩ := Tree.Ruled.leftmost_right s hk hn (fun hc => hred (by rw [hc]; rfl)) hmin
      obtain ⟨h', hrem, hs', hroot⟩ := removeSubst_two hshows hrne hmin hplace hkm hxm hfuel
      rw [Tree.removeAt_two hlne hrne hmin]
      exact ⟨h', by simpa [hchoose] using hrem, hs', hroot⟩

end

end Udx.SackNodes
