/-
# Red-black trees

Binary trees with colours, where insertion and removal restore the colours
from the changed place upwards. A place is a tree with a hole (`Ctx`). What the
trees hold, in order (`toList`), does not depend on how they are rebalanced:
a value goes before the first one it is less than, and a removal takes one
value out.

Key definitions: `Tree`, `Ctx`, `Tree.insert`, `Tree.remove`.
Key theorems: `Tree.insert_toList`, `Tree.remove_toList`.
-/
import Mathlib.Data.List.Basic

namespace RedBlack

variable {α : Type}

inductive Color
  | red
  | black
  deriving DecidableEq

inductive Tree (α : Type)
  | leaf
  | node (c : Color) (l : Tree α) (v : α) (r : Tree α)

namespace Tree

def toList : Tree α → List α
  | leaf => []
  | node _ l v r => l.toList ++ v :: r.toList

def isRed : Tree α → Bool
  | node .red .. => true
  | _ => false

def paint (c : Color) : Tree α → Tree α
  | leaf => leaf
  | node _ l v r => node c l v r

@[simp] theorem toList_leaf : (leaf : Tree α).toList = [] := rfl

@[simp] theorem toList_node (c : Color) (l r : Tree α) (v : α) :
    (node c l v r).toList = l.toList ++ v :: r.toList := rfl

@[simp] theorem toList_paint (c : Color) (t : Tree α) : (t.paint c).toList = t.toList := by
  cases t <;> rfl

end Tree

/-! ### Places -/

/-- A tree with a hole: the hole is the root, or the left or right child of a
node. -/
inductive Ctx (α : Type)
  | top
  | left (c : Color) (v : α) (r : Tree α) (up : Ctx α)
  | right (c : Color) (l : Tree α) (v : α) (up : Ctx α)

namespace Ctx

def fill : Ctx α → Tree α → Tree α
  | top, t => t
  | left c v r up, t => up.fill (.node c t v r)
  | right c l v up, t => up.fill (.node c l v t)

/-- What stands before the hole. -/
def before : Ctx α → List α
  | top => []
  | left _ _ _ up => up.before
  | right _ l v up => up.before ++ l.toList ++ [v]

/-- What stands behind it. -/
def after : Ctx α → List α
  | top => []
  | left _ v r up => v :: r.toList ++ up.after
  | right _ _ _ up => up.after

@[simp] theorem fill_toList (k : Ctx α) (t : Tree α) : (k.fill t).toList = k.before ++ t.toList ++ k.after := by
  induction k generalizing t with
  | top => simp [fill, before, after]
  | left c v r up ih => simp [fill, before, after, ih]
  | right c l v up ih => simp [fill, before, after, ih]

end Ctx

/-! ### Insertion -/

namespace Tree

/-- The place of a new value: to the left of what it is less than. -/
def descend (lt : α → α → Bool) (x : α) : Tree α → Ctx α → Ctx α
  | leaf, k => k
  | node c l v r, k => if lt x v then descend lt x l (.left c v r k) else descend lt x r (.right c l v k)

/-- The loop that repairs a red node `t` under a red parent. -/
def insertFix : Ctx α → Tree α → Tree α
  | .left .red pv pr (.left _ gv gr up), t =>
    if gr.isRed then insertFix up (node .red (node .black t pv pr) gv (gr.paint .black))
    else up.fill (node .black t pv (node .red pr gv gr))
  | .right .red pl pv (.left _ gv gr up), node c l v r =>
    if gr.isRed then insertFix up (node .red (node .black pl pv (node c l v r)) gv (gr.paint .black))
    else up.fill (node .black (node .red pl pv l) v (node .red r gv gr))
  | .right .red pl pv (.right _ gl gv up), t =>
    if gl.isRed then insertFix up (node .red (gl.paint .black) gv (node .black pl pv t))
    else up.fill (node .black (node .red gl gv pl) pv t)
  | .left .red pv pr (.right _ gl gv up), node c l v r =>
    if gl.isRed then insertFix up (node .red (gl.paint .black) gv (node .black (node c l v r) pv pr))
    else up.fill (node .black (node .red gl gv l) v (node .red r pv pr))
  | k, t => k.fill t

def insert (lt : α → α → Bool) (x : α) (t : Tree α) : Tree α :=
  (insertFix (t.descend lt x .top) (node .red leaf x leaf)).paint .black

theorem insertFix_toList (k : Ctx α) (t : Tree α) : (insertFix k t).toList = k.before ++ t.toList ++ k.after := by
  fun_induction insertFix k t with
  | case1 _ _ _ _ _ _ _ _ ih => simp [ih, Ctx.before, Ctx.after]
  | case2 => simp [Ctx.before, Ctx.after]
  | case3 _ _ _ _ _ _ _ _ _ _ _ ih => simp [ih, Ctx.before, Ctx.after]
  | case4 => simp [Ctx.before, Ctx.after]
  | case5 _ _ _ _ _ _ _ _ ih => simp [ih, Ctx.before, Ctx.after]
  | case6 => simp [Ctx.before, Ctx.after]
  | case7 _ _ _ _ _ _ _ _ _ _ _ ih => simp [ih, Ctx.before, Ctx.after]
  | case8 => simp [Ctx.before, Ctx.after]
  | case9 => exact Ctx.fill_toList ..

/-- The place of a new value splits what the tree holds. -/
theorem descend_split {lt : α → α → Bool} {x : α} {t : Tree α} (k : Ctx α)
    (hmono : t.toList.Pairwise fun a b => lt x a = true → lt x b = true) :
    ∃ l₁ l₂, t.toList = l₁ ++ l₂ ∧ (t.descend lt x k).before = k.before ++ l₁ ∧
      (t.descend lt x k).after = l₂ ++ k.after ∧ (∀ a ∈ l₁, lt x a = false) ∧ ∀ a ∈ l₂, lt x a = true := by
  induction t generalizing k with
  | leaf => exact ⟨[], [], rfl, by simp [descend], by simp [descend], by simp, by simp⟩
  | node c l v r ihl ihr =>
    rw [toList_node, List.pairwise_append, List.pairwise_cons] at hmono
    obtain ⟨hl, ⟨hv, hr⟩, hlv⟩ := hmono
    unfold descend
    split
    · next hlt =>
      obtain ⟨l₁, l₂, hsplit, hbefore, hafter, h₁, h₂⟩ := ihl (.left c v r k) hl
      refine ⟨l₁, l₂ ++ v :: r.toList, by simp [hsplit], by simp [hbefore, Ctx.before], ?_, h₁, fun a ha => ?_⟩
      · simp [hafter, Ctx.after]
      · rcases List.mem_append.mp ha with ha | ha
        · exact h₂ a ha
        · rcases List.mem_cons.mp ha with rfl | ha
          · exact hlt
          · exact hv a ha hlt
    · next hge =>
      obtain ⟨l₁, l₂, hsplit, hbefore, hafter, h₁, h₂⟩ := ihr (.right c l v k) hr
      refine ⟨l.toList ++ v :: l₁, l₂, by simp [hsplit], by simp [hbefore, Ctx.before], ?_, fun a ha => ?_, h₂⟩
      · simp [hafter, Ctx.after]
      · rcases List.mem_append.mp ha with ha | ha
        · exact Bool.eq_false_iff.mpr fun hlt => hge (hlv a ha v List.mem_cons_self hlt)
        · rcases List.mem_cons.mp ha with rfl | ha
          · exact Bool.eq_false_iff.mpr hge
          · exact h₁ a ha

/-- A new value goes before the values it is less than. -/
theorem insert_toList {lt : α → α → Bool} {x : α} {t : Tree α}
    (hmono : t.toList.Pairwise fun a b => lt x a = true → lt x b = true) :
    ∃ l₁ l₂, t.toList = l₁ ++ l₂ ∧ (t.insert lt x).toList = l₁ ++ x :: l₂ ∧
      (∀ a ∈ l₁, lt x a = false) ∧ ∀ a ∈ l₂, lt x a = true := by
  obtain ⟨l₁, l₂, hsplit, hbefore, hafter, h₁, h₂⟩ := descend_split .top hmono
  refine ⟨l₁, l₂, hsplit, ?_, h₁, h₂⟩
  simp [insert, insertFix_toList, hbefore, hafter, Ctx.before, Ctx.after]

/-! ### Removal -/

/-- The left-most node: its colour, its value and its right child. -/
def leftmost : Tree α → Option (Color × α × Tree α)
  | leaf => none
  | node c leaf v r => some (c, v, r)
  | node _ (node c l v r) _ _ => leftmost (node c l v r)

/-- Its place. -/
def leftmostCtx : Tree α → Ctx α → Ctx α
  | node c (node c' l v' r') v r, k => leftmostCtx (node c' l v' r') (.left c v r k)
  | _, k => k

/-- The black node `t` to the left of `w` lacks a black node above it. Where
`w`, which is black, has no red child, it becomes red and the lack moves up. -/
def borrowLeft (pc : Color) (pv : α) (t : Tree α) : Tree α → Option (Tree α)
  | leaf => none
  | node _ wl wv wr =>
    if wr.isRed then some (node pc (node .black t pv wl) wv (wr.paint .black))
    else
      match wl with
      | node .red a x b => some (node pc (node .black t pv a) x (node .black b wv wr))
      | _ => none

def borrowRight (pc : Color) (pv : α) (t : Tree α) : Tree α → Option (Tree α)
  | leaf => none
  | node _ wl wv wr =>
    if wl.isRed then some (node pc (wl.paint .black) wv (node .black wr pv t))
    else
      match wr with
      | node .red a x b => some (node pc (node .black wl wv a) x (node .black b pv t))
      | _ => none

/-- The loop that repairs the lack of a black node above `t`. -/
def removeFix : Ctx α → Tree α → Tree α
  | .top, t => t.paint .black
  | .left pc pv w up, t =>
    if t.isRed then up.fill (node pc (t.paint .black) pv w)
    else
      match w with
      | node .red wl wv wr =>
        -- after the rotation the parent is red, which ends the loop
        match borrowLeft .red pv t wl with
        | some p => (up.fill (node .black p wv wr)).paint .black
        | none => up.fill (node .black (node .black t pv (wl.paint .red)) wv wr)
      | w =>
        match borrowLeft pc pv t w with
        | some p => (up.fill p).paint .black
        | none => removeFix up (node pc t pv (w.paint .red))
  | .right pc w pv up, t =>
    if t.isRed then up.fill (node pc w pv (t.paint .black))
    else
      match w with
      | node .red wl wv wr =>
        match borrowRight .red pv t wr with
        | some p => (up.fill (node .black wl wv p)).paint .black
        | none => up.fill (node .black wl wv (node .black (wr.paint .red) pv t))
      | w =>
        match borrowRight pc pv t w with
        | some p => (up.fill p).paint .black
        | none => removeFix up (node pc (w.paint .red) pv t)

/-- A node of colour `c` gives its place to its only child `t`. -/
def unlink (c : Color) : Ctx α → Tree α → Tree α
  | .top, t => t.paint .black
  | k, t => if c = .red then k.fill t else removeFix k t

/-- The root of `t` leaves; with two children the next value takes its place. -/
def removeAt (k : Ctx α) : Tree α → Tree α
  | leaf => k.fill leaf
  | node c leaf _ r => unlink c k r
  | node c l _ leaf => unlink c k l
  | node c l v r =>
    match leftmost r with
    | some (c', s, r') => unlink c' (leftmostCtx r (.right c l s k)) r'
    | none => k.fill (node c l v r)

/-- The place of a value. -/
def focus (p : α → Bool) : Tree α → Ctx α → Option (Ctx α × Tree α)
  | leaf, _ => none
  | node c l v r, k =>
    if p v then some (k, node c l v r)
    else (focus p l (.left c v r k)).or (focus p r (.right c l v k))

def remove (p : α → Bool) (t : Tree α) : Tree α :=
  match t.focus p .top with
  | some (k, t) => removeAt k t
  | none => t

theorem borrowLeft_toList {pc : Color} {pv : α} {t w p : Tree α} (h : borrowLeft pc pv t w = some p) :
    p.toList = t.toList ++ pv :: w.toList := by
  unfold borrowLeft at h
  split at h
  · cases h
  · split at h
    · simp [← Option.some.inj h]
    · split at h
      · simp [← Option.some.inj h]
      · cases h

theorem borrowRight_toList {pc : Color} {pv : α} {t w p : Tree α} (h : borrowRight pc pv t w = some p) :
    p.toList = w.toList ++ pv :: t.toList := by
  unfold borrowRight at h
  split at h
  · cases h
  · split at h
    · simp [← Option.some.inj h]
    · split at h
      · simp [← Option.some.inj h]
      · cases h

theorem removeFix_toList (k : Ctx α) (t : Tree α) : (removeFix k t).toList = k.before ++ t.toList ++ k.after := by
  induction k generalizing t with
  | top => simp [removeFix, Ctx.before, Ctx.after]
  | left pc pv w up ih =>
    unfold removeFix
    split
    · simp [Ctx.before, Ctx.after]
    · split
      · split
        · next p hp => simp [borrowLeft_toList hp, Ctx.before, Ctx.after]
        · simp [Ctx.before, Ctx.after]
      · split
        · next p hp => simp [borrowLeft_toList hp, Ctx.before, Ctx.after]
        · simp [ih, Ctx.before, Ctx.after]
  | right pc w pv up ih =>
    unfold removeFix
    split
    · simp [Ctx.before, Ctx.after]
    · split
      · split
        · next p hp => simp [borrowRight_toList hp, Ctx.before, Ctx.after]
        · simp [Ctx.before, Ctx.after]
      · split
        · next p hp => simp [borrowRight_toList hp, Ctx.before, Ctx.after]
        · simp [ih, Ctx.before, Ctx.after]

theorem unlink_toList (c : Color) (k : Ctx α) (t : Tree α) :
    (unlink c k t).toList = k.before ++ t.toList ++ k.after := by
  unfold unlink
  split
  · simp [Ctx.before, Ctx.after]
  · split
    · exact Ctx.fill_toList ..
    · exact removeFix_toList ..

theorem leftmost_toList {t r : Tree α} {c : Color} {s : α} (h : t.leftmost = some (c, s, r)) (k : Ctx α) :
    (t.leftmostCtx k).before = k.before ∧ s :: (r.toList ++ (t.leftmostCtx k).after) = t.toList ++ k.after := by
  fun_induction leftmost t generalizing k with
  | case1 => cases h
  | case2 c' v r' =>
    cases h
    exact ⟨rfl, rfl⟩
  | case3 c' c l v r v' r' ih =>
    obtain ⟨hbefore, hafter⟩ := ih h (.left c' v' r' k)
    exact ⟨hbefore, by simpa [leftmostCtx, Ctx.after] using hafter⟩

theorem leftmost_node (c : Color) (l : Tree α) (v : α) (r : Tree α) : ∃ x, (node c l v r).leftmost = some x := by
  induction l generalizing c v r with
  | leaf => exact ⟨_, rfl⟩
  | node c' l' v' r' ih => exact ih c' v' r'

theorem removeAt_toList (k : Ctx α) (c : Color) (l : Tree α) (v : α) (r : Tree α) :
    (removeAt k (node c l v r)).toList = k.before ++ (l.toList ++ r.toList) ++ k.after := by
  cases l with
  | leaf => simp [removeAt, unlink_toList]
  | node c' l' v' r' =>
    cases r with
    | leaf => simp [removeAt, unlink_toList]
    | node c'' l'' v'' r'' =>
      obtain ⟨⟨cs, s, rs⟩, hs⟩ := leftmost_node c'' l'' v'' r''
      obtain ⟨hbefore, hafter⟩ := leftmost_toList hs (.right c (node c' l' v' r') s k)
      have hremove : removeAt k (node c (node c' l' v' r') v (node c'' l'' v'' r'')) =
          unlink cs (leftmostCtx (node c'' l'' v'' r'') (.right c (node c' l' v' r') s k)) rs := by
        simp [removeAt, hs]
      rw [hremove, unlink_toList, hbefore]
      simpa [Ctx.before, Ctx.after] using hafter

/-- What `focus` finds is a place of the tree. -/
theorem focus_toList {p : α → Bool} {t u : Tree α} {k k' : Ctx α} (h : t.focus p k = some (k', u)) :
    ∃ c l v r, u = node c l v r ∧ p v = true ∧
      k'.before ++ u.toList ++ k'.after = k.before ++ t.toList ++ k.after := by
  induction t generalizing k with
  | leaf => cases h
  | node c l v r ihl ihr =>
    unfold focus at h
    split at h
    · next hp =>
      cases h
      exact ⟨c, l, v, r, rfl, hp, rfl⟩
    · rcases Option.or_eq_some_iff.mp h with h | ⟨-, h⟩
      · obtain ⟨c', l', v', r', hu, hp, hlist⟩ := ihl h
        exact ⟨c', l', v', r', hu, hp, by simpa [Ctx.before, Ctx.after] using hlist⟩
      · obtain ⟨c', l', v', r', hu, hp, hlist⟩ := ihr h
        exact ⟨c', l', v', r', hu, hp, by simpa [Ctx.before, Ctx.after] using hlist⟩

/-- A removal takes out one value, if any. -/
theorem remove_toList (p : α → Bool) (t : Tree α) : (t.remove p).toList = t.toList ∨
    ∃ l₁ v l₂, t.toList = l₁ ++ v :: l₂ ∧ p v = true ∧ (t.remove p).toList = l₁ ++ l₂ := by
  unfold remove
  split
  · next k u hfocus =>
    obtain ⟨c, l, v, r, rfl, hp, hlist⟩ := focus_toList hfocus
    refine .inr ⟨k.before ++ l.toList, v, r.toList ++ k.after, ?_, hp, ?_⟩
    · simpa [Ctx.before, Ctx.after] using hlist.symm
    · simp [removeAt_toList]
  · exact .inl rfl

end Tree

end RedBlack
