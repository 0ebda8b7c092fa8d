/-
# Red-black trees in memory

Nodes that point to their children and to their parent. Node 0 is the sentinel,
which every empty tree is. A heap shows a tree with a hole and what is in the
hole; a rotation, a new colour or another pointer in the parent are local to
the hole.

Key definitions: `Heap`, `Heap.Held`, `Heap.Spine`, `Heap.Shows`, `Heap.rotate`.
Key theorems: `Shows.down`, `Spine.put`, `Shows.paint`, `Shows.rotate`.
-/
import Udx.RedBlackRules

namespace RedBlack

/-! ### Nodes and pointers -/

/-- A pointer that is NULL is `none`. -/
structure Heap where
  root : ℕ
  child : ℕ → Side → Option ℕ
  parent : ℕ → Option ℕ
  color : ℕ → Color

namespace Heap

def setRoot (p : ℕ) (h : Heap) : Heap := { h with root := p }

def setChild (v : ℕ) (d : Side) (p : Option ℕ) (h : Heap) : Heap :=
  { h with child := fun u e => if u = v ∧ e = d then p else h.child u e }

def setParent (v : ℕ) (p : Option ℕ) (h : Heap) : Heap :=
  { h with parent := fun u => if u = v then p else h.parent u }

def setColor (v : ℕ) (c : Color) (h : Heap) : Heap :=
  { h with color := fun u => if u = v then c else h.color u }

section

variable (h : Heap) (v u p : ℕ) (d e : Side) (q : Option ℕ) (c : Color)

@[simp] theorem setRoot_root : (h.setRoot p).root = p := rfl
@[simp] theorem setRoot_child : (h.setRoot p).child = h.child := rfl
@[simp] theorem setRoot_parent : (h.setRoot p).parent = h.parent := rfl
@[simp] theorem setRoot_color : (h.setRoot p).color = h.color := rfl
@[simp] theorem setChild_root : (h.setChild v d q).root = h.root := rfl
@[simp] theorem setChild_child :
    (h.setChild v d q).child u e = if u = v ∧ e = d then q else h.child u e := rfl
@[simp] theorem setChild_parent : (h.setChild v d q).parent = h.parent := rfl
@[simp] theorem setChild_color : (h.setChild v d q).color = h.color := rfl
@[simp] theorem setParent_root : (h.setParent v q).root = h.root := rfl
@[simp] theorem setParent_child : (h.setParent v q).child = h.child := rfl
@[simp] theorem setParent_parent : (h.setParent v q).parent u = if u = v then q else h.parent u := rfl
@[simp] theorem setParent_color : (h.setParent v q).color = h.color := rfl
@[simp] theorem setColor_root : (h.setColor v c).root = h.root := rfl
@[simp] theorem setColor_child : (h.setColor v c).child = h.child := rfl
@[simp] theorem setColor_parent : (h.setColor v c).parent = h.parent := rfl
@[simp] theorem setColor_color : (h.setColor v c).color u = if u = v then c else h.color u := rfl

end

end Heap

/-- The pointer to a tree. -/
def Tree.ptr : Tree ℕ → ℕ
  | leaf => 0
  | node _ _ v _ => v

@[simp] theorem Tree.ptr_leaf : (leaf : Tree ℕ).ptr = 0 := rfl

@[simp] theorem Tree.ptr_join (d : Side) (c : Color) (x y : Tree ℕ) (v : ℕ) : (join d c x v y).ptr = v := by
  cases d <;> rfl

@[simp] theorem Tree.ptr_paint (c : Color) (t : Tree ℕ) : (t.paint c).ptr = t.ptr := by
  cases t <;> rfl

theorem Tree.ptr_mem {t : Tree ℕ} (h : t ≠ leaf) : t.ptr ∈ t.toList := by
  cases t with
  | leaf => exact absurd rfl h
  | node c l v r => simp [ptr]

theorem Tree.ne_ptr {t : Tree ℕ} {u : ℕ} (hu : u ∉ t.toList) (h0 : u ≠ 0) : u ≠ t.ptr := by
  rintro rfl
  rcases eq_or_ne t leaf with rfl | hleaf
  · exact h0 rfl
  · exact hu (ptr_mem hleaf)

namespace Ctx

/-- The pointer from the root of the hole to the node above. -/
def above : Ctx ℕ → Option ℕ
  | top => none
  | left _ v _ _ => some v
  | right _ _ v _ => some v

/-- The field that points to what is in the hole. -/
def slot : Ctx ℕ → Option (ℕ × Side)
  | top => none
  | left _ v _ _ => some (v, .left)
  | right _ _ v _ => some (v, .right)

def nodes (k : Ctx ℕ) : List ℕ := k.before ++ k.after

section

variable (d : Side) (c : Color) (v : ℕ) (s : Tree ℕ) (up : Ctx ℕ)

@[simp] theorem above_top : (top : Ctx ℕ).above = none := rfl
@[simp] theorem above_down : (down d c v s up).above = some v := by cases d <;> rfl
@[simp] theorem slot_top : (top : Ctx ℕ).slot = none := rfl
@[simp] theorem slot_down : (down d c v s up).slot = some (v, d) := by cases d <;> rfl
@[simp] theorem nodes_top : (top : Ctx ℕ).nodes = [] := rfl

@[simp] theorem mem_nodes_down {u : ℕ} :
    u ∈ (down d c v s up).nodes ↔ u = v ∨ u ∈ s.toList ∨ u ∈ up.nodes := by
  cases d <;> simp [nodes, down, before, after] <;> grind

end

@[simp] theorem length_nodes_down (d : Side) (c : Color) (v : ℕ) (s : Tree ℕ) (up : Ctx ℕ) :
    (down d c v s up).nodes.length = up.nodes.length + s.toList.length + 1 := by
  cases d <;> simp [nodes, down, before, after] <;> omega

theorem nodup_nodes_down {d : Side} {c : Color} {v : ℕ} {s : Tree ℕ} {up : Ctx ℕ} :
    (down d c v s up).nodes.Nodup ↔ v ∉ s.toList ∧ v ∉ up.nodes ∧ s.toList.Nodup ∧ up.nodes.Nodup ∧
      s.toList.Disjoint up.nodes := by
  cases d <;> simp [nodes, down, before, after, List.nodup_append, List.Disjoint] <;> grind

theorem nodes_eq_nil {k : Ctx ℕ} (h : k.nodes = []) : k = top := by
  cases k with
  | top => rfl
  | left c v r up => simp [nodes, after] at h
  | right c l v up => simp [nodes, before] at h

theorem slot_mem {k : Ctx ℕ} {u : ℕ} {e : Side} (h : k.slot = some (u, e)) : u ∈ k.nodes := by
  cases k with
  | top => cases h
  | left c v r up => cases h; simp [nodes, after]
  | right c l v up => cases h; simp [nodes, before]

end Ctx

namespace Tree

@[simp] theorem mem_join {d : Side} {c : Color} {x y : Tree ℕ} {v u : ℕ} :
    u ∈ (join d c x v y).toList ↔ u = v ∨ u ∈ x.toList ∨ u ∈ y.toList := by
  cases d <;> simp [join] <;> grind

theorem nodup_join {d : Side} {c : Color} {x y : Tree ℕ} {v : ℕ} : (join d c x v y).toList.Nodup ↔
    v ∉ x.toList ∧ v ∉ y.toList ∧ x.toList.Nodup ∧ y.toList.Nodup ∧ x.toList.Disjoint y.toList := by
  cases d <;> simp [join, List.nodup_append, List.Disjoint] <;> grind

theorem length_fill (k : Ctx ℕ) (t : Tree ℕ) : (k.fill t).toList.length = t.toList.length + k.nodes.length := by
  simp [Ctx.fill_toList, Ctx.nodes]
  omega

theorem nodup_fill {k : Ctx ℕ} {t : Tree ℕ} :
    (k.fill t).toList.Nodup ↔ t.toList.Nodup ∧ k.nodes.Nodup ∧ t.toList.Disjoint k.nodes := by
  rw [Ctx.fill_toList]
  simp only [Ctx.nodes, List.nodup_append, List.Disjoint, List.mem_append]
  grind

theorem mem_fill {k : Ctx ℕ} {t : Tree ℕ} {u : ℕ} : u ∈ (k.fill t).toList ↔ u ∈ t.toList ∨ u ∈ k.nodes := by
  rw [Ctx.fill_toList]
  simp only [Ctx.nodes, List.mem_append]
  grind

end Tree

/-! ### What a heap holds -/

namespace Heap

/-- The nodes of a tree, below `par`. -/
def Held (h : Heap) (par : Option ℕ) : Tree ℕ → Prop
  | .leaf => True
  | .node c l v r => h.child v .left = some l.ptr ∧ h.child v .right = some r.ptr ∧ h.parent v = par ∧
      h.color v = c ∧ h.Held (some v) l ∧ h.Held (some v) r

/-- The nodes above and beside a hole, which `p` points into. -/
def Spine (h : Heap) : Ctx ℕ → ℕ → Prop
  | .top, p => h.root = p
  | .left c v r up, p => h.child v .left = some p ∧ h.child v .right = some r.ptr ∧ h.parent v = up.above ∧
      h.color v = c ∧ h.Held (some v) r ∧ h.Spine up v
  | .right c l v up, p => h.child v .right = some p ∧ h.child v .left = some l.ptr ∧ h.parent v = up.above ∧
      h.color v = c ∧ h.Held (some v) l ∧ h.Spine up v

variable {h h' : Heap}

@[simp] theorem held_leaf {par : Option ℕ} : h.Held par .leaf := trivial

theorem held_join {par : Option ℕ} {d : Side} {c : Color} {x y : Tree ℕ} {v : ℕ} :
    h.Held par (.join d c x v y) ↔ h.child v d = some x.ptr ∧ h.child v d.flip = some y.ptr ∧
      h.parent v = par ∧ h.color v = c ∧ h.Held (some v) x ∧ h.Held (some v) y := by
  cases d
  · exact Iff.rfl
  · simp only [Tree.join, Held, Side.flip]
    grind

theorem spine_down {d : Side} {c : Color} {v p : ℕ} {s : Tree ℕ} {up : Ctx ℕ} :
    h.Spine (.down d c v s up) p ↔ h.child v d = some p ∧ h.child v d.flip = some s.ptr ∧
      h.parent v = up.above ∧ h.color v = c ∧ h.Held (some v) s ∧ h.Spine up v := by
  cases d <;> exact Iff.rfl

/-- `u` is the same node in both heaps. -/
def Same (h h' : Heap) (u : ℕ) : Prop :=
  h'.child u = h.child u ∧ h'.parent u = h.parent u ∧ h'.color u = h.color u

theorem Held.congr {par : Option ℕ} {t : Tree ℕ} (held : h.Held par t) (hsame : ∀ u ∈ t.toList, Same h h' u) :
    h'.Held par t := by
  induction t generalizing par with
  | leaf => trivial
  | node c l v r ihl ihr =>
    obtain ⟨hl, hr, hp, hc, hll, hrr⟩ := held
    obtain ⟨hchild, hparent, hcolor⟩ := hsame v (by simp)
    exact ⟨hchild ▸ hl, hchild ▸ hr, hparent.trans hp, hcolor.trans hc,
      ihl hll fun u hu => hsame u (by simp [hu]), ihr hrr fun u hu => hsame u (by simp [hu])⟩

/-- A tree that hangs below another node. -/
theorem Held.adopt {par par' : Option ℕ} {t : Tree ℕ} (held : h.Held par t) (hnd : t.toList.Nodup)
    (hpar : t ≠ .leaf → h'.parent t.ptr = par') (hsame : ∀ u ∈ t.toList, h'.child u = h.child u ∧
      h'.color u = h.color u ∧ (u ≠ t.ptr → h'.parent u = h.parent u)) : h'.Held par' t := by
  cases t with
  | leaf => trivial
  | node c l v r =>
    obtain ⟨hl, hr, -, hc, hll, hrr⟩ := held
    obtain ⟨hvl, hvr, -⟩ := Tree.nodup_join.mp (show (Tree.join .left c l v r).toList.Nodup from hnd)
    obtain ⟨hchild, hcolor, -⟩ := hsame v (by simp)
    refine ⟨hchild ▸ hl, hchild ▸ hr, hpar (by simp), hcolor.trans hc, hll.congr fun u hu => ?_,
      hrr.congr fun u hu => ?_⟩
    · obtain ⟨h₁, h₂, h₃⟩ := hsame u (by simp [hu])
      exact ⟨h₁, h₃ (by rintro rfl; exact hvl hu), h₂⟩
    · obtain ⟨h₁, h₂, h₃⟩ := hsame u (by simp [hu])
      exact ⟨h₁, h₃ (by rintro rfl; exact hvr hu), h₂⟩

/-- Another pointer into the hole. -/
def put (k : Ctx ℕ) (p : ℕ) (h : Heap) : Heap :=
  match k.slot with
  | none => h.setRoot p
  | some (v, d) => h.setChild v d (some p)

theorem put_root (k : Ctx ℕ) (p : ℕ) (h : Heap) : (h.put k p).root = if k.slot = none then p else h.root := by
  unfold put
  split <;> simp_all

theorem put_child (k : Ctx ℕ) (p : ℕ) (h : Heap) (u : ℕ) (e : Side) :
    (h.put k p).child u e = if k.slot = some (u, e) then some p else h.child u e := by
  unfold put
  split <;> simp_all
  grind

@[simp] theorem put_parent (k : Ctx ℕ) (p : ℕ) (h : Heap) : (h.put k p).parent = h.parent := by
  unfold put
  split <;> rfl

@[simp] theorem put_color (k : Ctx ℕ) (p : ℕ) (h : Heap) : (h.put k p).color = h.color := by
  unfold put
  split <;> rfl

theorem Spine.congr {k : Ctx ℕ} {p : ℕ} (hs : h.Spine k p) (hroot : h'.root = h.root)
    (hsame : ∀ u ∈ k.nodes, Same h h' u) : h'.Spine k p := by
  induction k using Ctx.sides generalizing p with
  | top => exact hroot.trans hs
  | down d c v s up ih =>
    obtain ⟨hd, hf, hp, hc, hheld, hup⟩ := spine_down.mp hs
    obtain ⟨hchild, hparent, hcolor⟩ := hsame v (by simp)
    exact spine_down.mpr ⟨hchild ▸ hd, hchild ▸ hf, hparent.trans hp, hcolor.trans hc,
      hheld.congr fun u hu => hsame u (by simp [hu]), ih hup fun u hu => hsame u (by simp [hu])⟩

/-- The root is in the hole if nothing is above it. -/
theorem Spine.root_iff {k : Ctx ℕ} {p : ℕ} (hs : h.Spine k p) (hp : p ∉ k.nodes) : p = h.root ↔ k = .top := by
  refine ⟨fun hroot => ?_, fun htop => ?_⟩
  · by_contra hk
    refine hp (hroot ▸ ?_)
    clear hp hroot
    induction k using Ctx.sides generalizing p with
    | top => exact absurd rfl hk
    | down d c v s up ih =>
      have hup := (spine_down.mp hs).2.2.2.2.2
      rcases eq_or_ne up .top with rfl | hne
      · rw [show h.root = v from hup]
        simp
      · simp [ih hup hne]
  · subst htop
    exact hs.symm

/-- The spine stays but for the pointer into the hole. -/
theorem Spine.put {k : Ctx ℕ} {p q : ℕ} (hs : h.Spine k p) (hnd : k.nodes.Nodup)
    (hroot : h'.root = if k.slot = none then q else h.root)
    (hchild : ∀ u ∈ k.nodes, ∀ e, h'.child u e = if k.slot = some (u, e) then some q else h.child u e)
    (hkept : ∀ u ∈ k.nodes, h'.parent u = h.parent u ∧ h'.color u = h.color u) : h'.Spine k q := by
  rcases eq_or_ne k .top with rfl | hk
  · exact hroot
  · obtain ⟨d, c, v, s, up, rfl⟩ := Ctx.cases_down hk
    obtain ⟨hd, hf, hp, hc, hheld, hup⟩ := spine_down.mp hs
    obtain ⟨hvs, hvup, -, -, -⟩ := Ctx.nodup_nodes_down.mp hnd
    have hsame : ∀ u ∈ (Ctx.down d c v s up).nodes, u ≠ v → Same h h' u := by
      intro u hu hne
      refine ⟨funext fun e => ?_, hkept u hu⟩
      rw [hchild u hu e, if_neg]
      simp [hne.symm]
    have hv : v ∈ (Ctx.down d c v s up).nodes := by simp
    refine spine_down.mpr ⟨?_, ?_, (hkept v hv).1.trans hp, (hkept v hv).2.trans hc,
      hheld.congr fun u hu => hsame u (by simp [hu]) (by rintro rfl; exact hvs hu),
      hup.congr ?_ fun u hu => hsame u (by simp [hu]) (by rintro rfl; exact hvup hu)⟩
    · simp [hchild v hv]
    · rw [hchild v hv, if_neg (by simp [Side.ne_flip]), hf]
    · simpa using hroot

/-! ### A tree with a hole, in memory -/

/-- The heap is the tree `k`, with `t` in its hole. -/
structure Shows (h : Heap) (k : Ctx ℕ) (t : Tree ℕ) : Prop where
  spine : h.Spine k t.ptr
  held : h.Held k.above t
  nodup : (k.fill t).toList.Nodup
  nil : 0 ∉ (k.fill t).toList
  black : h.color 0 = .black

/-- Replaces the child `v` of its parent by `w`. -/
def replaceChild (d : Side) (v w : ℕ) (h : Heap) : Option Heap :=
  if v = h.root then some ((h.setRoot w).setParent w none)
  else do
    let p ← h.parent v
    if h.child p d = some v then some (h.setChild p d (some w)) else some (h.setChild p d.flip (some w))

/-- The child of `v` away from side `d` takes its place, and `v` becomes the
child on side `d`. -/
def rotate (d : Side) (v : ℕ) (h : Heap) : Option Heap := do
  let w ← h.child v d.flip
  let y ← h.child w d
  let h₁ := h.setChild v d.flip (some y)
  let h₂ := if y ≠ 0 then h₁.setParent y (some v) else h₁
  let h₃ := h₂.setParent w (h₂.parent v)
  let h₄ ← replaceChild d v w h₃
  some ((h₄.setChild w d (some v)).setParent v (some w))

namespace Shows

variable {k up : Ctx ℕ} {d : Side} {c c' : Color} {v w : ℕ} {s t x y z : Tree ℕ}

theorem down : h.Shows (.down d c v s up) t ↔ h.Shows up (.join d c t v s) := by
  constructor
  · rintro ⟨hs, ht, hnd, hnil, hblack⟩
    obtain ⟨hd, hf, hp, hc, hheld, hup⟩ := spine_down.mp hs
    rw [Ctx.above_down] at ht
    rw [Ctx.fill_down] at hnd hnil
    exact ⟨by rwa [Tree.ptr_join], held_join.mpr ⟨hd, hf, hp, hc, ht, hheld⟩, hnd, hnil, hblack⟩
  · rintro ⟨hs, ht, hnd, hnil, hblack⟩
    obtain ⟨hd, hf, hp, hc, ht, hheld⟩ := held_join.mp ht
    rw [Tree.ptr_join] at hs
    rw [← Ctx.fill_down] at hnd hnil
    exact ⟨spine_down.mpr ⟨hd, hf, hp, hc, hheld, hs⟩, by rwa [Ctx.above_down], hnd, hnil, hblack⟩

theorem fill : h.Shows .top (k.fill t) ↔ h.Shows k t := by
  induction k using Ctx.sides generalizing t with
  | top => exact Iff.rfl
  | down d c v s up ih => rw [Ctx.fill_down, ih, down]

theorem leftmost : h.Shows (t.leftmostCtx k) x ↔ h.Shows k (t.withMin x) := by
  rw [← fill (k := t.leftmostCtx k), Tree.leftmostCtx_fill, fill]

/-- The hole moves to the sibling. -/
theorem other : h.Shows (.down d c v s up) t ↔ h.Shows (.down d.flip c v t up) s := by
  rw [down, down, Tree.join_flip]

theorem ptr_eq_zero (hs : h.Shows k t) : t.ptr = 0 ↔ t = .leaf := by
  refine ⟨fun hzero => ?_, fun hleaf => by rw [hleaf]; rfl⟩
  by_contra hne
  exact hs.nil (Tree.mem_fill.mpr (.inl (hzero ▸ Tree.ptr_mem hne)))

theorem not_mem_nodes (hs : h.Shows k t) {u : ℕ} (hu : u ∈ t.toList) : u ∉ k.nodes :=
  (Tree.nodup_fill.mp hs.nodup).2.2 hu

theorem ptr_not_mem (hs : h.Shows k t) : t.ptr ∉ k.nodes := by
  rcases eq_or_ne t .leaf with rfl | ht
  · exact fun hmem => hs.nil (Tree.mem_fill.mpr (.inr hmem))
  · exact hs.not_mem_nodes (Tree.ptr_mem ht)

theorem parent (hs : h.Shows k t) (ht : t ≠ .leaf) : h.parent t.ptr = k.above := by
  cases t with
  | leaf => exact absurd rfl ht
  | node c l v r => exact hs.held.2.2.1

/-- A sentinel that is looked at has the parent of its hole. -/
theorem parent_of_zero (hs : h.Shows k t) (hzero : t = .leaf → h.parent 0 = k.above) :
    h.parent t.ptr = k.above := by
  rcases eq_or_ne t .leaf with rfl | ht
  · exact hzero rfl
  · exact hs.parent ht

/-- A tree that is not empty has a root without a parent. -/
theorem root_parent (hs : h.Shows .top t) (ht : t.toList ≠ []) : h.parent h.root = none := by
  have hleaf : t ≠ .leaf := by
    rintro rfl
    exact ht rfl
  rw [show h.root = t.ptr from hs.spine, hs.parent hleaf, Ctx.above_top]

theorem child (hs : h.Shows (.down d c v s up) t) : h.child v d = some t.ptr ∧ h.child v d.flip = some s.ptr :=
  ⟨(spine_down.mp hs.spine).1, (spine_down.mp hs.spine).2.1⟩

/-- The sentinel is black, as the empty tree. -/
theorem isRed (hs : h.Shows k t) : h.color t.ptr = .red ↔ t.isRed = true := by
  cases t with
  | leaf => simp [hs.black, Tree.isRed]
  | node c l v r =>
    rw [show h.color (Tree.node c l v r).ptr = c from hs.held.2.2.2.1]
    cases c <;> simp [Tree.isRed]

theorem isBlack (hs : h.Shows k t) : h.color t.ptr = .black ↔ t.isRed = false := by
  have hred := hs.isRed
  cases hc : h.color t.ptr with
  | red => simp [hred.mp hc]
  | black => simpa [hc] using hred

theorem root_iff (hs : h.Shows k t) : t.ptr = h.root ↔ k = .top := hs.spine.root_iff hs.ptr_not_mem

theorem ptr_ne (hs : h.Shows (.down d c v s up) t) (hne : t ≠ .leaf ∨ s ≠ .leaf) : t.ptr ≠ s.ptr := by
  intro heq
  rcases hne with ht | hne
  · have hs' := other.mp hs
    exact hs'.ptr_not_mem (by simp [← heq, Tree.ptr_mem ht])
  · exact hs.ptr_not_mem (by simp [heq, Tree.ptr_mem hne])

/-- The side of the hole, by the pointers. -/
theorem left_iff (hs : h.Shows (.down d c v s up) t) (hne : t ≠ .leaf ∨ s ≠ .leaf) :
    h.child v .left = some t.ptr ↔ d = .left := by
  obtain ⟨hd, hf⟩ := hs.child
  cases d with
  | left => simp [hd]
  | right =>
    have hflip : h.child v .left = some s.ptr := hf
    simp [hflip, (hs.ptr_ne hne).symm]

theorem side (hs : h.Shows (.down d c v s up) t) (hne : t ≠ .leaf ∨ s ≠ .leaf) :
    (if h.child v .left = some t.ptr then Side.left else .right) = d := by
  have hiff := hs.left_iff hne
  cases d with
  | left => rw [if_pos (hiff.mpr rfl)]
  | right => rw [if_neg (mt hiff.mp nofun)]

theorem paint (hs : h.Shows k t) (ht : t ≠ .leaf) (c' : Color) :
    (h.setColor t.ptr c').Shows k (t.paint c') := by
  obtain ⟨c, x, v, y, rfl⟩ := Tree.exists_join .left ht
  obtain ⟨hl, hr, hp, -, hx, hy⟩ := held_join.mp hs.held
  obtain ⟨hnt, -, -⟩ := Tree.nodup_fill.mp hs.nodup
  obtain ⟨hvx, hvy, -⟩ := Tree.nodup_join.mp hnt
  have hlist : (k.fill (.join .left c' x v y)).toList = (k.fill (.join .left c x v y)).toList := by
    simp [Tree.join]
  have hv : v ≠ 0 := fun hzero => hs.nil (Tree.mem_fill.mpr (.inl (by simp [hzero])))
  have hsame : ∀ u, u ≠ v → Same h (h.setColor v c') u := fun u hu => ⟨rfl, rfl, by simp [hu]⟩
  have hsp := hs.spine
  rw [Tree.ptr_join] at hsp
  rw [Tree.paint_join, Tree.ptr_join]
  refine ⟨?_, held_join.mpr ⟨hl, hr, hp, by simp, hx.congr fun u hu => hsame u ?_,
    hy.congr fun u hu => hsame u ?_⟩, hlist ▸ hs.nodup, hlist ▸ hs.nil, ?_⟩
  · rw [Tree.ptr_join]
    exact hsp.congr rfl fun u hu => hsame u fun heq => hs.not_mem_nodes (u := v) (by simp) (heq ▸ hu)
  · rintro rfl
    exact hvx hu
  · rintro rfl
    exact hvy hu
  · simp [hv.symm, hs.black]

/-- The sentinel may become black, too. -/
theorem paint_black (hs : h.Shows k t) : (h.setColor t.ptr .black).Shows k (t.paint .black) := by
  rcases eq_or_ne t .leaf with rfl | ht
  · have hsame : h.setColor 0 .black = h := by
      have hcolor : (fun u => if u = 0 then Color.black else h.color u) = h.color := by
        funext u
        split
        · next hu => rw [hu, hs.black]
        · rfl
      simp [setColor, hcolor]
    rw [show (Tree.leaf : Tree ℕ).paint .black = .leaf from rfl, Tree.ptr_leaf, hsame]
    exact hs
  · exact hs.paint ht .black

end Shows

/-- What `replaceChild` does at a hole. -/
theorem replaceChild_eq {k : Ctx ℕ} {d : Side} {v w : ℕ} (hroot : v = h.root ↔ k = .top)
    (hv : h.parent v = k.above) (hw : h.parent w = k.above)
    (hslot : ∀ u e, k.slot = some (u, e) → h.child u e = some v ∧ h.child u e.flip ≠ some v) :
    replaceChild d v w h = some (h.put k w) := by
  unfold replaceChild
  rcases eq_or_ne k .top with rfl | hk
  · have hparent : (fun u => if u = w then none else h.parent u) = h.parent := by
      funext u
      split
      · next hu => rw [hu, hw, Ctx.above_top]
      · rfl
    rw [if_pos (hroot.mpr rfl)]
    simp [put, setRoot, setParent, hparent]
  · obtain ⟨e, c, u, s, up, rfl⟩ := Ctx.cases_down hk
    obtain ⟨hd, hf⟩ := hslot u e (by simp)
    rw [if_neg fun heq => hk (hroot.mp heq), hv, Ctx.above_down]
    by_cases hside : d = e
    · subst hside
      simp [put, hd]
    · obtain rfl : d = e.flip := Side.eq_flip_of_ne hside
      simp [put, hf]

namespace Shows

variable {k up : Ctx ℕ} {d : Side} {c c' : Color} {v w : ℕ} {s t x y z : Tree ℕ}

/-- The field that points into the hole, and the one beside it. -/
theorem slot (hs : h.Shows k t) (ht : t ≠ .leaf) {u : ℕ} {e : Side} (hslot : k.slot = some (u, e)) :
    h.child u e = some t.ptr ∧ h.child u e.flip ≠ some t.ptr := by
  obtain ⟨d, c, v, s, up, rfl⟩ := Ctx.cases_down (k := k) (by rintro rfl; cases hslot)
  obtain ⟨hd, hf⟩ := hs.child
  rw [Ctx.slot_down] at hslot
  cases hslot
  exact ⟨hd, by simp [hf, (hs.ptr_ne (.inl ht)).symm]⟩

/-- A rotation in its place. -/
theorem rotate (hs : h.Shows k (.join d c x v (.join d c' y w z))) : ∃ h', h.rotate d v = some h' ∧
    h'.Shows k (.join d c' (.join d c x v y) w z) ∧ h'.parent 0 = h.parent 0 := by
  obtain ⟨hvx, hvw, hvp, hvc, hx, hheld⟩ := held_join.mp hs.held
  obtain ⟨hwy, hwz, -, hwc, hy, hz⟩ := held_join.mp hheld
  rw [Tree.ptr_join] at hvw
  obtain ⟨hnt, hnk, -⟩ := Tree.nodup_fill.mp hs.nodup
  obtain ⟨hvnx, hvnw, -, hnw, hxw⟩ := Tree.nodup_join.mp hnt
  obtain ⟨hwny, hwnz, hny, -, hyz⟩ := Tree.nodup_join.mp hnw
  simp only [Tree.mem_join, not_or] at hvnw
  obtain ⟨hne, hvny, hvnz⟩ := hvnw
  have hnil : ∀ u ∈ (Tree.join d c x v (.join d c' y w z)).toList, u ≠ 0 := fun u hu hzero =>
    hs.nil (Tree.mem_fill.mpr (.inl (hzero ▸ hu)))
  have hv0 : v ≠ 0 := hnil v (by simp)
  have hw0 : w ≠ 0 := hnil w (by simp)
  have hbeside : ∀ u ∈ k.nodes, u ≠ v ∧ u ≠ w ∧ u ≠ y.ptr := by
    intro u hu
    have hnot : u ∉ (Tree.join d c x v (.join d c' y w z)).toList := fun hmem => hs.not_mem_nodes hmem hu
    simp only [Tree.mem_join, not_or] at hnot
    refine ⟨hnot.1, hnot.2.2.1, Tree.ne_ptr hnot.2.2.2.1 ?_⟩
    rintro rfl
    exact hs.nil (Tree.mem_fill.mpr (.inr hu))
  have hslotv : ∀ u e, k.slot = some (u, e) → u ≠ v ∧ u ≠ w := fun u e hslot =>
    ⟨(hbeside u (Ctx.slot_mem hslot)).1, (hbeside u (Ctx.slot_mem hslot)).2.1⟩
  obtain ⟨h₂, hdef⟩ : ∃ h₂, h₂ = if y.ptr ≠ 0 then (h.setChild v d.flip (some y.ptr)).setParent y.ptr (some v)
      else h.setChild v d.flip (some y.ptr) := ⟨_, rfl⟩
  have hroot : h₂.root = h.root := by rw [hdef]; split <;> rfl
  have hcolor : h₂.color = h.color := by rw [hdef]; split <;> rfl
  have hchild : ∀ u e, h₂.child u e = if u = v ∧ e = d.flip then some y.ptr else h.child u e := by
    intro u e
    rw [hdef]
    split <;> rfl
  have hparent : ∀ u, u ≠ y.ptr → h₂.parent u = h.parent u := by
    intro u hu
    rw [hdef]
    split <;> simp [hu]
  have hadopt : y ≠ .leaf → h₂.parent y.ptr = some v := by
    intro hleaf
    rw [hdef, if_pos (hnil _ (by simp [Tree.ptr_mem hleaf]))]
    simp
  have hzero : h₂.parent 0 = h.parent 0 := by
    rw [hdef]
    split
    · next hy0 => simp [hy0.symm]
    · rfl
  have hpv : h₂.parent v = k.above := (hparent v (Tree.ne_ptr hvny hv0)).trans hvp
  have hreplace : replaceChild d v w (h₂.setParent w (h₂.parent v)) =
      some ((h₂.setParent w (h₂.parent v)).put k w) := by
    refine replaceChild_eq ?_ ?_ ?_ fun u e hslot => ?_
    · rw [setParent_root, hroot, ← hs.root_iff, Tree.ptr_join]
    · rw [setParent_parent, if_neg hne, hpv]
    · rw [setParent_parent, if_pos rfl, hpv]
    · have hold := hs.slot (by cases d <;> simp [Tree.join]) hslot
      rw [Tree.ptr_join] at hold
      simpa [hchild, (hslotv u e hslot).1] using hold
  obtain ⟨h', hdef'⟩ : ∃ h', h' = (((h₂.setParent w (h₂.parent v)).put k w).setChild w d (some v)).setParent v
      (some w) := ⟨_, rfl⟩
  have hroot' : h'.root = if k.slot = none then w else h.root := by
    simp [hdef', put_root, hroot]
  have hchild' : ∀ u e, h'.child u e = if u = w ∧ e = d then some v else if k.slot = some (u, e) then some w
      else if u = v ∧ e = d.flip then some y.ptr else h.child u e := by
    intro u e
    simp [hdef', put_child, hchild]
  have hparent' : ∀ u, h'.parent u = if u = v then some w else if u = w then k.above else h₂.parent u := by
    intro u
    simp [hdef', hpv]
  have hcolor' : h'.color = h.color := by simp [hdef', hcolor]
  have hslot : ∀ u e, u = v ∨ u = w → k.slot ≠ some (u, e) := by
    rintro u e (rfl | rfl) hslot
    · exact (hslotv _ _ hslot).1 rfl
    · exact (hslotv _ _ hslot).2 rfl
  -- the nodes below the two that turn
  have hbelow : ∀ u, u ≠ v → u ≠ w → u ∈ (Tree.join d c x v (.join d c' y w z)).toList →
      h'.child u = h.child u ∧ h'.color u = h.color u ∧ (u ≠ y.ptr → h'.parent u = h.parent u) := by
    intro u huv huw hu
    refine ⟨funext fun e => ?_, by rw [hcolor'], fun hu => ?_⟩
    · rw [hchild', if_neg (by simp [huw]), if_neg, if_neg (by simp [huv])]
      exact fun hslot => hs.not_mem_nodes hu (Ctx.slot_mem hslot)
    · rw [hparent', if_neg huv, if_neg huw, hparent u hu]
  have hlist : (k.fill (.join d c' (.join d c x v y) w z)).toList =
      (k.fill (.join d c x v (.join d c' y w z))).toList := by
    cases d <;> simp [Tree.join]
  refine ⟨h', ?_, ⟨?_, held_join.mpr ⟨?_, ?_, ?_, ?_, held_join.mpr ⟨?_, ?_, ?_, ?_, ?_, ?_⟩, ?_⟩,
    hlist ▸ hs.nodup, hlist ▸ hs.nil, by rw [hcolor', hs.black]⟩, ?_⟩
  · unfold Heap.rotate
    simp only [hvw, hwy, Option.bind_eq_bind, Option.bind_some]
    rw [← hdef, hreplace, Option.bind_some, hdef']
  · rw [Tree.ptr_join]
    refine hs.spine.put hnk hroot' (fun u hu e => ?_) fun u hu => ?_
    · obtain ⟨huv, huw, -⟩ := hbeside u hu
      simp [hchild', huv, huw]
    · obtain ⟨huv, huw, huy⟩ := hbeside u hu
      rw [hparent', if_neg huv, if_neg huw, hparent u huy, hcolor']
      exact ⟨rfl, rfl⟩
  · simp [hchild']
  · rw [hchild', if_neg (by simp [Side.ne_flip, eq_comm]), if_neg (hslot w _ (.inr rfl)),
      if_neg (by simp [Ne.symm hne]), hwz]
  · simp [hparent', Ne.symm hne]
  · rw [hcolor', hwc]
  · rw [hchild', if_neg (by simp [hne]), if_neg (hslot v _ (.inl rfl)), if_neg (by simp [Side.ne_flip]), hvx]
  · rw [hchild', if_neg (by simp [hne]), if_neg (hslot v _ (.inl rfl)), if_pos ⟨rfl, rfl⟩]
  · simp [hparent']
  · rw [hcolor', hvc]
  · refine hx.congr fun u hu => ?_
    have huy : u ∉ y.toList := fun hmem => hxw hu (by simp [hmem])
    obtain ⟨h₁, h₂, h₃⟩ := hbelow u (by rintro rfl; exact hvnx hu) (by rintro rfl; exact hxw hu (by simp))
      (by simp [hu])
    exact ⟨h₁, h₃ (Tree.ne_ptr huy (hnil u (by simp [hu]))), h₂⟩
  · refine hy.adopt hny (fun hleaf => ?_) fun u hu => ?_
    · have hmem := Tree.ptr_mem hleaf
      rw [hparent', if_neg (by rintro heq; exact hvny (heq ▸ hmem)),
        if_neg (by rintro heq; exact hwny (heq ▸ hmem)), hadopt hleaf]
    · exact hbelow u (by rintro rfl; exact hvny hu) (by rintro rfl; exact hwny hu) (by simp [hu])
  · refine hz.congr fun u hu => ?_
    have huy : u ∉ y.toList := fun hmem => hyz hmem hu
    obtain ⟨h₁, h₂, h₃⟩ := hbelow u (by rintro rfl; exact hvnz hu) (by rintro rfl; exact hwnz hu) (by simp [hu])
    exact ⟨h₁, h₃ (Tree.ne_ptr huy (hnil u (by simp [hu]))), h₂⟩
  · rw [hparent', if_neg hv0.symm, if_neg hw0.symm, hzero]

end Shows

end Heap

end RedBlack
