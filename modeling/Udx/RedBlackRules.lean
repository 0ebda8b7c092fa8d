/-
# The rules of red-black trees

No red node has a red child, and the paths from a node down pass equally many
black ones. Insertion and removal keep the rules. Left and right are handled
as one: `Tree.join` and `Ctx.down` take the side.

Key definitions: `Side`, `Tree.join`, `Ctx.down`, `Tree.Ruled`, `Ctx.Ruled`.
Key theorems: `Ctx.Ruled.fill`, `Tree.Sound.insert`, `Tree.Sound.remove`.
-/
import Udx.RedBlack

namespace RedBlack

variable {α : Type}

/-! ### Sides -/

inductive Side
  | left
  | right
  deriving DecidableEq

namespace Side

def flip : Side → Side
  | left => right
  | right => left

@[simp] theorem flip_flip (d : Side) : d.flip.flip = d := by cases d <;> rfl

theorem ne_flip (d : Side) : d ≠ d.flip := by cases d <;> exact nofun

theorem eq_flip_of_ne {d e : Side} (h : d ≠ e) : d = e.flip := by
  cases d <;> cases e <;> first | rfl | exact absurd rfl h

end Side

/-- A node whose child on side `d` is `x`. -/
def Tree.join (d : Side) (c : Color) (x : Tree α) (v : α) (y : Tree α) : Tree α :=
  match d with
  | .left => .node c x v y
  | .right => .node c y v x

/-- The place on side `d` of a node. -/
def Ctx.down (d : Side) (c : Color) (v : α) (sibling : Tree α) (up : Ctx α) : Ctx α :=
  match d with
  | .left => .left c v sibling up
  | .right => .right c sibling v up

theorem Ctx.down_ne_top {d : Side} {c : Color} {v : α} {s : Tree α} {up : Ctx α} : down d c v s up ≠ top := by
  cases d <;> exact nofun

@[simp] theorem Ctx.fill_down (d : Side) (c : Color) (v : α) (s t : Tree α) (up : Ctx α) :
    (Ctx.down d c v s up).fill t = up.fill (.join d c t v s) := by
  cases d <;> rfl

namespace Tree

theorem join_flip (d : Side) (c : Color) (x y : Tree α) (v : α) : join d.flip c x v y = join d c y v x := by
  cases d <;> rfl

theorem join_ne_leaf {d : Side} {c : Color} {x y : Tree α} {v : α} : join d c x v y ≠ leaf := by
  cases d <;> exact nofun

@[simp] theorem isRed_join (d : Side) (c : Color) (x y : Tree α) (v : α) :
    (join d c x v y).isRed = decide (c = .red) := by
  cases d <;> cases c <;> rfl

@[simp] theorem isRed_paint_black (t : Tree α) : (t.paint .black).isRed = false := by
  cases t <;> rfl

@[simp] theorem paint_join (d : Side) (c c' : Color) (x y : Tree α) (v : α) :
    (join d c x v y).paint c' = join d c' x v y := by
  cases d <;> rfl

/-! ### The repairs, side by side -/

theorem insertFix_outer (d : Side) (gc : Color) (pv gv : α) (ps gs t : Tree α) (up : Ctx α) :
    insertFix (.down d .red pv ps (.down d gc gv gs up)) t =
      if gs.isRed then insertFix up (join d .red (join d .black t pv ps) gv (gs.paint .black))
      else up.fill (join d .black t pv (join d .red ps gv gs)) := by
  cases d <;> simp [Ctx.down, join, insertFix]

theorem insertFix_inner (d : Side) (gc c : Color) (pv gv v : α) (ps gs x y : Tree α) (up : Ctx α) :
    insertFix (.down d.flip .red pv ps (.down d gc gv gs up)) (join d c x v y) =
      if gs.isRed then
        insertFix up (join d .red (join d.flip .black (join d c x v y) pv ps) gv (gs.paint .black))
      else up.fill (join d .black (join d .red ps pv x) v (join d .red y gv gs)) := by
  cases d <;> simp [Side.flip, Ctx.down, join, insertFix]

/-- `borrowLeft` and `borrowRight`. -/
def borrow (d : Side) (pc : Color) (pv : α) (t w : Tree α) : Option (Tree α) :=
  match d with
  | .left => borrowLeft pc pv t w
  | .right => borrowRight pc pv t w

theorem borrow_far (d : Side) (pc wc : Color) (pv wv : α) (t near : Tree α) {far : Tree α}
    (h : far.isRed = true) : borrow d pc pv t (join d wc near wv far) =
      some (join d pc (join d .black t pv near) wv (far.paint .black)) := by
  cases d <;> simp [borrow, join, borrowLeft, borrowRight, h]

theorem borrow_near (d : Side) (pc wc : Color) (pv wv v : α) (t x y : Tree α) {far : Tree α}
    (h : far.isRed = false) : borrow d pc pv t (join d wc (join d .red x v y) wv far) =
      some (join d pc (join d .black t pv x) v (join d .black y wv far)) := by
  cases d <;> simp [borrow, join, borrowLeft, borrowRight, h]

theorem borrow_none (d : Side) (pc wc : Color) (pv wv : α) (t : Tree α) {near far : Tree α}
    (hnear : near.isRed = false) (hfar : far.isRed = false) :
    borrow d pc pv t (join d wc near wv far) = none := by
  cases near with
  | leaf => cases d <;> simp [borrow, join, borrowLeft, borrowRight, hfar]
  | node c => cases c <;> cases d <;> simp_all [borrow, join, borrowLeft, borrowRight, isRed]

theorem removeFix_red (d : Side) (pc : Color) (pv : α) (t w : Tree α) (up : Ctx α) (h : t.isRed = true) :
    removeFix (.down d pc pv w up) t = up.fill (join d pc (t.paint .black) pv w) := by
  cases d <;> simp [Ctx.down, join, removeFix, h]

theorem removeFix_redSibling (d : Side) (pc : Color) (pv wv : α) (t near far : Tree α) (up : Ctx α)
    (h : t.isRed = false) : removeFix (.down d pc pv (join d .red near wv far) up) t =
      match borrow d .red pv t near with
      | some p => (up.fill (join d .black p wv far)).paint .black
      | none => up.fill (join d .black (join d .black t pv (near.paint .red)) wv far) := by
  have hb : ¬ t.isRed = true := by simp [h]
  cases d <;> exact if_neg hb

theorem removeFix_blackSibling (d : Side) (pc : Color) (pv : α) (t : Tree α) {w : Tree α} (up : Ctx α)
    (h : t.isRed = false) (hw : w.isRed = false) : removeFix (.down d pc pv w up) t =
      match borrow d pc pv t w with
      | some p => (up.fill p).paint .black
      | none => removeFix up (join d pc t pv (w.paint .red)) := by
  have hb : ¬ t.isRed = true := by simp [h]
  cases w with
  | leaf => cases d <;> exact if_neg hb
  | node c l v r =>
    cases c with
    | red => cases hw
    | black => cases d <;> exact if_neg hb

theorem insertFix_black (d : Side) (v : α) (s t : Tree α) (up : Ctx α) :
    insertFix (.down d .black v s up) t = (Ctx.down d .black v s up).fill t := by
  cases d <;> simp [Ctx.down, insertFix]

/-! ### The rules -/

/-- No red node has a red child, and every path down passes `n` black nodes. -/
def Ruled : Tree α → ℕ → Prop
  | leaf, n => n = 0
  | node .red l _ r, n => (l.isRed = false ∧ r.isRed = false) ∧ l.Ruled n ∧ r.Ruled n
  | node .black _ _ _, 0 => False
  | node .black l _ r, n + 1 => l.Ruled n ∧ r.Ruled n

/-- A tree that keeps the rules, with a black root. -/
def Sound (t : Tree α) : Prop := t.isRed = false ∧ ∃ n, t.Ruled n

section

variable {d : Side} {x y : Tree α} {v : α} {n : ℕ}

@[simp] theorem ruled_leaf : (leaf : Tree α).Ruled n ↔ n = 0 := Iff.rfl

@[simp] theorem ruled_red : (join d .red x v y).Ruled n ↔
    (x.isRed = false ∧ y.isRed = false) ∧ x.Ruled n ∧ y.Ruled n := by
  cases d
  · exact Iff.rfl
  · exact and_congr and_comm and_comm

@[simp] theorem ruled_black : (join d .black x v y).Ruled (n + 1) ↔ x.Ruled n ∧ y.Ruled n := by
  cases d
  · exact Iff.rfl
  · exact and_comm

theorem Ruled.black {m : ℕ} (h : (join d .black x v y).Ruled m) : ∃ n, m = n + 1 ∧ x.Ruled n ∧ y.Ruled n := by
  cases m with
  | zero => cases d <;> cases h
  | succ n => exact ⟨n, rfl, ruled_black.mp h⟩

end

/-- A tree that is not empty, seen from one side. -/
theorem exists_join (d : Side) {t : Tree α} (h : t ≠ leaf) : ∃ c x v y, t = join d c x v y := by
  cases t with
  | leaf => exact absurd rfl h
  | node c l v r =>
    cases d with
    | left => exact ⟨c, l, v, r, rfl⟩
    | right => exact ⟨c, r, v, l, rfl⟩

theorem exists_red (d : Side) {t : Tree α} (h : t.isRed = true) : ∃ x v y, t = join d .red x v y := by
  obtain ⟨c, x, v, y, rfl⟩ := exists_join d (t := t) (by rintro rfl; cases h)
  rw [isRed_join, decide_eq_true_eq] at h
  exact ⟨x, v, y, h ▸ rfl⟩

theorem exists_black (d : Side) {t : Tree α} {n : ℕ} (h : t.Ruled (n + 1)) (hb : t.isRed = false) :
    ∃ x v y, t = join d .black x v y ∧ x.Ruled n ∧ y.Ruled n := by
  obtain ⟨c, x, v, y, rfl⟩ := exists_join d (t := t) (by rintro rfl; cases h)
  cases c with
  | red => rw [isRed_join] at hb; cases hb
  | black => exact ⟨x, v, y, rfl, ruled_black.mp h⟩

namespace Ruled

variable {t : Tree α} {n : ℕ}

theorem paint_black (h : t.Ruled n) (hr : t.isRed = true) : (t.paint .black).Ruled (n + 1) := by
  obtain ⟨x, v, y, rfl⟩ := exists_red .left hr
  rw [paint_join, ruled_black]
  exact (ruled_red.mp h).2

theorem sound_paint (h : t.Ruled n) : (t.paint .black).Sound := by
  cases t with
  | leaf => exact ⟨rfl, n, h⟩
  | node c l v r =>
    refine ⟨rfl, ?_⟩
    cases c with
    | red => exact ⟨n + 1, h.2⟩
    | black => exact ⟨n, h⟩

end Ruled

theorem Sound.paint {t : Tree α} (h : t.Sound) : (t.paint .black).Sound := h.2.choose_spec.sound_paint

end Tree

/-! ### Places -/

namespace Ctx

/-- The place can take a red node: the node above it is black. -/
def admits : Ctx α → Bool
  | top => false
  | left c .. => decide (c = .black)
  | right c .. => decide (c = .black)

/-- What fills the place with a tree of height `n` makes a tree that keeps the
rules. -/
def Ruled : Ctx α → ℕ → Prop
  | top, _ => True
  | left .red _ s up, n => s.isRed = false ∧ s.Ruled n ∧ up.admits = true ∧ up.Ruled n
  | left .black _ s up, n => s.Ruled n ∧ up.Ruled (n + 1)
  | right .red s _ up, n => s.isRed = false ∧ s.Ruled n ∧ up.admits = true ∧ up.Ruled n
  | right .black s _ up, n => s.Ruled n ∧ up.Ruled (n + 1)

section

variable {d : Side} {c : Color} {v : α} {s : Tree α} {up : Ctx α} {n : ℕ}

@[simp] theorem admits_top : (top : Ctx α).admits = false := rfl

@[simp] theorem admits_down : (down d c v s up).admits = decide (c = .black) := by
  cases d <;> rfl

@[simp] theorem ruled_top : (top : Ctx α).Ruled n := trivial

@[simp] theorem ruled_red : (down d .red v s up).Ruled n ↔
    s.isRed = false ∧ s.Ruled n ∧ up.admits = true ∧ up.Ruled n := by
  cases d <;> exact Iff.rfl

@[simp] theorem ruled_black : (down d .black v s up).Ruled n ↔ s.Ruled n ∧ up.Ruled (n + 1) := by
  cases d <;> exact Iff.rfl

end

/-- Places from the root down, each side at once. -/
@[elab_as_elim]
theorem sides {motive : Ctx α → Prop} (top : motive .top)
    (down : ∀ d c v s up, motive up → motive (.down d c v s up)) (k : Ctx α) : motive k := by
  induction k with
  | top => exact top
  | left c v r up ih => exact down .left c v r up ih
  | right c l v up ih => exact down .right c v l up ih

theorem cases_down {k : Ctx α} (h : k ≠ top) : ∃ d c v s up, k = down d c v s up := by
  cases k with
  | top => exact absurd rfl h
  | left c v r up => exact ⟨.left, c, v, r, up, rfl⟩
  | right c l v up => exact ⟨.right, c, v, l, up, rfl⟩

/-- Two steps down at once. -/
theorem pairs {motive : Ctx α → Prop} (top : motive .top) (one : ∀ d c v s, motive (.down d c v s .top))
    (two : ∀ d c v s d' c' v' s' up, motive up → motive (.down d c v s (.down d' c' v' s' up))) (k : Ctx α) :
    motive k ∧ ∀ d c v s, motive (.down d c v s k) := by
  induction k using sides with
  | top => exact ⟨top, one⟩
  | down d c v s up ih => exact ⟨ih.2 d c v s, fun d' c' v' s' => two _ _ _ _ _ _ _ _ _ ih.1⟩

/-- A tree in its place keeps the rules. -/
theorem Ruled.fill {k : Ctx α} {t : Tree α} {n : ℕ} (h : k.Ruled n) (ht : t.Ruled n)
    (hr : t.isRed = true → k.admits = true) : (k.fill t).Sound := by
  induction k using sides generalizing t n with
  | top => exact ⟨Bool.eq_false_iff.mpr fun hred => absurd (hr hred) Bool.false_ne_true, n, ht⟩
  | down d c v s up ih =>
    rw [fill_down]
    cases c with
    | red =>
      obtain ⟨hs, hsn, hadmit, hup⟩ := ruled_red.mp h
      have hblack : t.isRed = false := Bool.eq_false_iff.mpr fun hred => by simp at hr; simp [hr] at hred
      exact ih hup (Tree.ruled_red.mpr ⟨⟨hblack, hs⟩, ht, hsn⟩) fun _ => hadmit
    | black =>
      obtain ⟨hsn, hup⟩ := ruled_black.mp h
      exact ih hup (Tree.ruled_black.mpr ⟨ht, hsn⟩) (by simp)

/-- What is in a place of a tree that keeps the rules keeps them. -/
theorem exists_ruled {k : Ctx α} {t : Tree α} (h : (k.fill t).Sound) :
    ∃ n, k.Ruled n ∧ t.Ruled n ∧ (t.isRed = true → k.admits = true) := by
  induction k using sides generalizing t with
  | top =>
    obtain ⟨hb, n, hn⟩ := h
    refine ⟨n, trivial, hn, fun hred => ?_⟩
    rw [show (top : Ctx α).fill t = t from rfl, hred] at hb
    cases hb
  | down d c v s up ih =>
    rw [fill_down] at h
    obtain ⟨n, hup, ht, hr⟩ := ih h
    cases c with
    | red =>
      obtain ⟨⟨htb, hs⟩, htn, hsn⟩ := Tree.ruled_red.mp ht
      exact ⟨n, ruled_red.mpr ⟨hs, hsn, hr (by simp), hup⟩, htn, fun hred => by rw [htb] at hred; cases hred⟩
    | black =>
      obtain ⟨m, rfl, htm, hsm⟩ := ht.black
      exact ⟨m, ruled_black.mpr ⟨hsm, hup⟩, htm, fun _ => by simp⟩

end Ctx

namespace Tree

/-! ### Insertion -/

theorem Ruled.insertFix {k : Ctx α} {t : Tree α} {n : ℕ} (h : k.Ruled n) (ht : t.Ruled n) (hr : t.isRed = true) :
    ((Tree.insertFix k t).paint .black).Sound := by
  revert h ht hr
  refine (Ctx.pairs (motive := fun k => ∀ {t : Tree α} {n : ℕ}, k.Ruled n → t.Ruled n → t.isRed = true →
    ((Tree.insertFix k t).paint .black).Sound) ?_ ?_ ?_ k).1
  · intro t n _ ht _
    exact ht.sound_paint
  · intro d c v s t n h ht _
    cases c with
    | red => simp at h
    | black =>
      rw [insertFix_black]
      exact (h.fill ht (by simp)).paint
  · intro d c pv ps d' c' gv gs up ih t n h ht hr
    cases c with
    | black =>
      rw [insertFix_black]
      exact (h.fill ht (by simp)).paint
    | red =>
      obtain ⟨hps, hpsn, hadmit, hgrand⟩ := Ctx.ruled_red.mp h
      obtain rfl : c' = .black := by simpa using hadmit
      obtain ⟨hgsn, hup⟩ := Ctx.ruled_black.mp hgrand
      by_cases hside : d = d'
      · subst hside
        rw [insertFix_outer]
        split
        · next hgs => exact ih hup (by simp [ht, hpsn, hgs, hgsn.paint_black]) (by simp)
        · next hgs =>
          rw [Bool.not_eq_true] at hgs
          exact (hup.fill (by simp [ht, hpsn, hps, hgs, hgsn]) (by simp)).paint
      · obtain rfl : d = d'.flip := Side.eq_flip_of_ne hside
        obtain ⟨x, v, y, rfl⟩ := exists_red d' hr
        obtain ⟨⟨hx, hy⟩, hxn, hyn⟩ := ruled_red.mp ht
        rw [insertFix_inner]
        split
        · next hgs => exact ih hup (by simp [hx, hy, hxn, hyn, hpsn, hgs, hgsn.paint_black]) (by simp)
        · next hgs =>
          rw [Bool.not_eq_true] at hgs
          exact (hup.fill (by simp [hx, hy, hxn, hyn, hpsn, hps, hgs, hgsn]) (by simp)).paint

theorem Ruled.descend {lt : α → α → Bool} {z : α} {t : Tree α} {n : ℕ} {k : Ctx α} (ht : t.Ruled n)
    (hk : k.Ruled n) (hr : t.isRed = true → k.admits = true) : (t.descend lt z k).Ruled 0 := by
  induction t generalizing n k with
  | leaf => exact ruled_leaf.mp ht ▸ hk
  | node c l v r ihl ihr =>
    change (join .left c l v r).Ruled n at ht
    cases c with
    | red =>
      obtain ⟨⟨hl, hr'⟩, hln, hrn⟩ := ruled_red.mp ht
      unfold Tree.descend
      split
      · exact ihl hln ⟨hr', hrn, hr rfl, hk⟩ (by simp [hl])
      · exact ihr hrn ⟨hl, hln, hr rfl, hk⟩ (by simp [hr'])
    | black =>
      obtain ⟨m, rfl, hln, hrn⟩ := ht.black
      unfold Tree.descend
      split
      · exact ihl hln ⟨hrn, hk⟩ fun _ => rfl
      · exact ihr hrn ⟨hln, hk⟩ fun _ => rfl

theorem descend_fill (lt : α → α → Bool) (z : α) (t : Tree α) (k : Ctx α) :
    (t.descend lt z k).fill leaf = k.fill t := by
  induction t generalizing k with
  | leaf => rfl
  | node c l v r ihl ihr =>
    unfold Tree.descend
    split
    · exact ihl (.left c v r k)
    · exact ihr (.right c l v k)

/-- Insertion keeps the rules. -/
theorem Sound.insert {lt : α → α → Bool} {x : α} {t : Tree α} (h : t.Sound) : (t.insert lt x).Sound := by
  obtain ⟨hb, n, hn⟩ := h
  have hplace : (t.descend lt x .top).Ruled 0 := hn.descend trivial (by simp [hb])
  exact Ruled.insertFix hplace ⟨⟨rfl, rfl⟩, rfl, rfl⟩ rfl

/-! ### Removal -/

/-- What the sibling can give away, or becomes red. -/
theorem Ruled.borrow (d : Side) (pc : Color) (pv wv : α) {t near far : Tree α} {n : ℕ} (ht : t.Ruled n)
    (hnear : near.Ruled n) (hfar : far.Ruled n) :
    (∃ p x v y, Tree.borrow d pc pv t (join d .black near wv far) = some p ∧ p = join d pc x v y ∧
      (x.isRed = false ∧ y.isRed = false) ∧ x.Ruled (n + 1) ∧ y.Ruled (n + 1)) ∨
    Tree.borrow d pc pv t (join d .black near wv far) = none ∧ near.isRed = false ∧ far.isRed = false := by
  cases hfr : far.isRed with
  | true =>
    refine .inl ⟨_, _, _, _, borrow_far d pc .black pv wv t near hfr, rfl, ⟨by simp, ?_⟩, by simp [ht, hnear],
      hfar.paint_black hfr⟩
    obtain ⟨x, v, y, rfl⟩ := exists_red d hfr
    simp
  | false =>
    cases hnr : near.isRed with
    | true =>
      obtain ⟨x, v, y, rfl⟩ := exists_red d hnr
      obtain ⟨⟨hx, hy⟩, hxn, hyn⟩ := ruled_red.mp hnear
      exact .inl ⟨_, _, _, _, borrow_near d pc .black pv wv v t x y hfr, rfl, ⟨by simp, by simp⟩,
        by simp [ht, hxn], by simp [hyn, hfar]⟩
    | false => exact .inr ⟨borrow_none d pc .black pv wv t hnr hfr, rfl, rfl⟩

theorem Ruled.removeFix {k : Ctx α} {t : Tree α} {n : ℕ} (h : k.Ruled (n + 1)) (ht : t.Ruled n) :
    (Tree.removeFix k t).Sound := by
  induction k using Ctx.sides generalizing t n with
  | top => exact ht.sound_paint
  | down d pc pv w up ih =>
    cases hb : t.isRed with
    | true =>
      rw [removeFix_red d pc pv t w up hb, ← Ctx.fill_down]
      refine h.fill (ht.paint_black hb) fun hred => ?_
      obtain ⟨x, v, y, rfl⟩ := exists_red d hb
      simp at hred
    | false =>
      cases hw : w.isRed with
      | true =>
        -- the parent is black, and takes the place of `w`
        obtain ⟨near, wv, far, rfl⟩ := exists_red d hw
        cases pc with
        | red => simp at h
        | black =>
          obtain ⟨hwn, hup⟩ := Ctx.ruled_black.mp h
          obtain ⟨⟨hnear, hfar⟩, hnearn, hfarn⟩ := ruled_red.mp hwn
          obtain ⟨nn, nv, nf, rfl, hnn, hnf⟩ := exists_black d hnearn hnear
          rw [removeFix_redSibling d .black pv wv t _ far up hb]
          rcases ht.borrow d .red pv nv hnn hnf with
            ⟨p, x, v, y, heq, rfl, ⟨hx, hy⟩, hxn, hyn⟩ | ⟨heq, hnnb, hnfb⟩
          · rw [heq]
            exact (hup.fill (by simp [hx, hy, hxn, hyn, hfarn]) (by simp)).paint
          · rw [heq]
            exact hup.fill (by simp [ht, hnn, hnf, hnnb, hnfb, hfarn]) (by simp)
      | false =>
        rw [removeFix_blackSibling d pc pv t up hb hw]
        have hwn : w.Ruled (n + 1) := by
          cases pc with
          | red => exact (Ctx.ruled_red.mp h).2.1
          | black => exact (Ctx.ruled_black.mp h).1
        obtain ⟨near, wv, far, rfl, hnear, hfar⟩ := exists_black d hwn hw
        rcases ht.borrow d pc pv wv hnear hfar with
          ⟨p, x, v, y, heq, rfl, ⟨hx, hy⟩, hxn, hyn⟩ | ⟨heq, hnb, hfb⟩
        · rw [heq]
          cases pc with
          | red =>
            obtain ⟨-, -, hadmit, hup⟩ := Ctx.ruled_red.mp h
            exact (hup.fill (by simp [hx, hy, hxn, hyn]) fun _ => hadmit).paint
          | black => exact ((Ctx.ruled_black.mp h).2.fill (by simp [hxn, hyn]) (by simp)).paint
        · rw [heq]
          cases pc with
          | red =>
            -- the parent becomes black, and the lack is gone
            obtain ⟨-, -, hadmit, hup⟩ := Ctx.ruled_red.mp h
            obtain ⟨d', c', v', s', up', rfl⟩ := Ctx.cases_down (k := up) (by rintro rfl; cases hadmit)
            rw [removeFix_red d' c' v' _ s' up' (by simp), ← Ctx.fill_down]
            exact hup.fill (by simp [ht, hnear, hfar, hnb, hfb]) (by simp)
          | black =>
            exact ih (Ctx.ruled_black.mp h).2 (by simp [ht, hnear, hfar, hnb, hfb])

/-- A node with at most one child leaves. -/
theorem Ruled.unlink {d : Side} {c : Color} {k : Ctx α} {t : Tree α} {v : α} {n : ℕ} (h : k.Ruled n)
    (ht : (join d c leaf v t).Ruled n) : (Tree.unlink c k t).Sound := by
  unfold Tree.unlink
  split
  · cases c with
    | red => exact (ruled_red.mp ht).2.2.sound_paint
    | black =>
      obtain ⟨m, rfl, -, htm⟩ := ht.black
      exact htm.sound_paint
  · split
    · next hc =>
      subst hc
      obtain ⟨⟨-, hb⟩, -, htn⟩ := ruled_red.mp ht
      exact h.fill htn (by simp [hb])
    · next hc =>
      obtain rfl : c = .black := by cases c <;> first | rfl | exact absurd rfl hc
      obtain ⟨m, rfl, -, htm⟩ := ht.black
      exact Ruled.removeFix h htm

theorem leftmost_some {t : Tree α} (h : t ≠ leaf) : ∃ x, t.leftmost = some x := by
  cases t with
  | leaf => exact absurd rfl h
  | node c l v r => exact leftmost_node c l v r

/-- The left-most node, in its place. -/
theorem Ruled.leftmost {t r : Tree α} {c : Color} {s : α} {n : ℕ} {k : Ctx α} (h : t.leftmost = some (c, s, r))
    (ht : t.Ruled n) (hk : k.Ruled n) (hr : t.isRed = true → k.admits = true) :
    ∃ m, (t.leftmostCtx k).Ruled m ∧ (node c leaf s r).Ruled m := by
  fun_induction Tree.leftmost t generalizing n k with
  | case1 => cases h
  | case2 c' v r' =>
    cases h
    exact ⟨n, hk, ht⟩
  | case3 c' c'' l v r' v' r'' ih =>
    change (join .left c' (node c'' l v r') v' r'').Ruled n at ht
    cases c' with
    | red =>
      obtain ⟨⟨hl, hr'⟩, hln, hrn⟩ := ruled_red.mp ht
      exact ih h hln ⟨hr', hrn, hr rfl, hk⟩ (by simp [hl])
    | black =>
      obtain ⟨m, rfl, hln, hrn⟩ := ht.black
      exact ih h hln ⟨hrn, hk⟩ fun _ => rfl

/-- The place of the next value, where another value has the place of the root. -/
theorem Ruled.leftmost_right {k : Ctx α} {c cs : Color} {l r rs : Tree α} {v s : α} {n : ℕ} (w : α) (h : k.Ruled n)
    (ht : (node c l v r).Ruled n) (hr : c = .red → k.admits = true) (hs : r.leftmost = some (cs, s, rs)) :
    ∃ m, (r.leftmostCtx (.right c l w k)).Ruled m ∧ (node cs leaf s rs).Ruled m := by
  change (join .left c l v r).Ruled n at ht
  cases c with
  | red =>
    obtain ⟨⟨hlb, hrb⟩, hln, hrn⟩ := ruled_red.mp ht
    exact hrn.leftmost (k := .right .red l w k) hs ⟨hlb, hln, hr rfl, h⟩ (by simp [hrb])
  | black =>
    obtain ⟨j, rfl, hln, hrn⟩ := ht.black
    exact hrn.leftmost (k := .right .black l w k) hs ⟨hln, h⟩ fun _ => rfl

/-- With two children the next value takes the place of the root. -/
theorem removeAt_two {k : Ctx α} {c cs : Color} {l r rs : Tree α} {v s : α} (hl : l ≠ leaf) (hr : r ≠ leaf)
    (hs : r.leftmost = some (cs, s, rs)) :
    removeAt k (node c l v r) = unlink cs (r.leftmostCtx (.right c l s k)) rs := by
  cases l with
  | leaf => exact absurd rfl hl
  | node c' l' v' r' =>
    cases r with
    | leaf => exact absurd rfl hr
    | node c'' l'' v'' r'' => simp [removeAt, hs]

/-- With one child the child does. -/
theorem removeAt_one (d : Side) (k : Ctx α) (c : Color) (v : α) (x : Tree α) :
    removeAt k (join d c leaf v x) = unlink c k x := by
  cases d with
  | left => cases x <;> rfl
  | right => cases x <;> rfl

theorem Ruled.removeAt {k : Ctx α} {c : Color} {l r : Tree α} {v : α} {n : ℕ} (h : k.Ruled n)
    (ht : (node c l v r).Ruled n) (hr : c = .red → k.admits = true) : (Tree.removeAt k (node c l v r)).Sound := by
  rcases eq_or_ne l leaf with rfl | hl
  · exact (removeAt_one .left k c v r) ▸ Ruled.unlink (d := .left) h ht
  · rcases eq_or_ne r leaf with rfl | hne
    · exact (removeAt_one .right k c v l) ▸ Ruled.unlink (d := .right) h ht
    · obtain ⟨⟨cs, s, rs⟩, hs⟩ := leftmost_some hne
      obtain ⟨m, hkm, htm⟩ := Ruled.leftmost_right s h ht hr hs
      rw [removeAt_two hl hne hs]
      exact Ruled.unlink (d := .left) hkm htm

/-- `x` in the place of the left-most node. -/
def withMin : Tree α → Tree α → Tree α
  | node c (node c' l v' r') v r, x => node c (withMin (node c' l v' r') x) v r
  | _, x => x

theorem leftmostCtx_fill (t x : Tree α) (k : Ctx α) : (t.leftmostCtx k).fill x = k.fill (t.withMin x) := by
  fun_induction leftmostCtx t k with
  | case1 c c' l v' r' v r k ih => exact ih
  | case2 t k hnot =>
    cases t with
    | leaf => rfl
    | node c l v r =>
      cases l with
      | leaf => rfl
      | node c' l' v' r' => exact absurd rfl (hnot _ _ _ _ _ _ _)

/-- What is found is in its place. -/
theorem focus_fill {p : α → Bool} {t u : Tree α} {k k' : Ctx α} (h : t.focus p k = some (k', u)) :
    k'.fill u = k.fill t ∧ u ≠ leaf := by
  induction t generalizing k with
  | leaf => cases h
  | node c l v r ihl ihr =>
    unfold Tree.focus at h
    split at h
    · cases h
      exact ⟨rfl, join_ne_leaf (d := .left)⟩
    · rcases Option.or_eq_some_iff.mp h with h | ⟨-, h⟩
      · exact ihl h
      · exact ihr h

theorem exists_focus {p : α → Bool} {t : Tree α} {v : α} (hv : v ∈ t.toList) (hp : p v = true) (k : Ctx α) :
    ∃ x, t.focus p k = some x := by
  induction t generalizing k with
  | leaf => cases hv
  | node c l u r ihl ihr =>
    unfold Tree.focus
    split
    · exact ⟨_, rfl⟩
    · next hu =>
      rw [toList_node, List.mem_append, List.mem_cons] at hv
      rcases hv with hv | rfl | hv
      · obtain ⟨x, hx⟩ := ihl hv (.left c u r k)
        exact ⟨x, by simp [hx]⟩
      · exact absurd hp hu
      · obtain ⟨x, hx⟩ := ihr hv (.right c l u k)
        cases hl : l.focus p (.left c u r k) with
        | none => exact ⟨x, by simp [hx]⟩
        | some y => exact ⟨y, rfl⟩

/-- A value of the tree is in a node of it. -/
theorem exists_place [DecidableEq α] {t : Tree α} {v : α} (hv : v ∈ t.toList) :
    ∃ k c l r, t = Ctx.fill k (node c l v r) := by
  obtain ⟨⟨k, u⟩, hfocus⟩ := exists_focus (p := (· = v)) hv (by simp) .top
  obtain ⟨hfill, -⟩ := focus_fill hfocus
  obtain ⟨c, l, w, r, rfl, hw, -⟩ := focus_toList hfocus
  obtain rfl : w = v := of_decide_eq_true hw
  exact ⟨k, c, l, r, hfill.symm⟩

/-- A removal takes out the value that is found. -/
theorem remove_split [DecidableEq α] {t : Tree α} {v : α} (hv : v ∈ t.toList) :
    ∃ l₁ l₂, t.toList = l₁ ++ v :: l₂ ∧ (t.remove (· = v)).toList = l₁ ++ l₂ := by
  obtain ⟨⟨k, u⟩, hfocus⟩ := exists_focus (p := (· = v)) hv (by simp) .top
  obtain ⟨hfill, -⟩ := focus_fill hfocus
  obtain ⟨c, l, w, r, rfl, hw, -⟩ := focus_toList hfocus
  obtain rfl : w = v := of_decide_eq_true hw
  refine ⟨k.before ++ l.toList, r.toList ++ k.after, ?_, ?_⟩
  · rw [show t = (Ctx.top : Ctx α).fill t from rfl, ← hfill]
    simp
  · unfold Tree.remove
    rw [hfocus]
    simp [removeAt_toList]

/-- A node leaves its place, and the rules are kept. -/
theorem Sound.removeAt {k : Ctx α} {t : Tree α} (h : (k.fill t).Sound) (ht : t ≠ leaf) :
    (t.removeAt k).Sound := by
  obtain ⟨n, hk, htn, hr⟩ := Ctx.exists_ruled h
  cases t with
  | leaf => exact absurd rfl ht
  | node c l v r => exact Ruled.removeAt hk htn fun hc => hr (by rw [hc]; rfl)

/-- Removal keeps the rules. -/
theorem Sound.remove {p : α → Bool} {t : Tree α} (h : t.Sound) : (t.remove p).Sound := by
  unfold Tree.remove
  split
  · next k u hfocus =>
    obtain ⟨hfill, hu⟩ := focus_fill hfocus
    exact Sound.removeAt (hfill ▸ h) hu
  · exact h

end Tree

end RedBlack
