/-
# The circular buffer is a map

A run of calls on one table, the newest call first, beside the finite map the
table stands for. The table stays that map as long as no value is set while one
is stored whose key differs in the top bit alone; for such a pair the doubling
only stops when the `uint32_t` size has wrapped to 0.

Key definitions: `Cirbuf.Op`, `Cirbuf.table`, `Cirbuf.contents`, `Cirbuf.IsMap`.
Key theorems: `Cirbuf.isMap_iff`, `Cirbuf.grow_opposite`.
-/
import Udx.Cirbuf

namespace Cirbuf

open Serial

/-- A call on a table. -/
inductive Op
  | set (val : ℕ)
  | get (seq : SeqNo)
  | remove (seq : SeqNo)

section

variable (key : ℕ → SeqNo)

/-- What a call leaves and returns. -/
def call (c : Cirbuf) : Op → Cirbuf × Option ℕ
  | .set val => (c.set key val, none)
  | .get seq => (c, c.get key seq)
  | .remove seq => (c.remove key seq, c.get key seq)

/-- The same call on a finite map from keys to values. -/
def answer (m : SeqNo → Option ℕ) : Op → (SeqNo → Option ℕ) × Option ℕ
  | .set val => (Function.update m (key val) (some val), none)
  | .get seq => (m, m seq)
  | .remove seq => (Function.update m seq none, m seq)

/-- The table after the calls `ops`, the newest first. -/
def table (size : ℕ) : List Op → Cirbuf
  | [] => init size
  | op :: ops => (call key (table size ops) op).1

/-- The last value set under each key and not removed since. -/
def contents : List Op → SeqNo → Option ℕ
  | [] => fun _ => none
  | op :: ops => (answer key (contents ops) op).1

/-- All keys of a table are among `n` consecutive numbers. -/
def Span (n : ℕ) (c : Cirbuf) : Prop := ∃ first : SeqNo, ∀ v, c.Stored v → (key v - first).toNat < n

/-- The table after `ops` is the map, and inside its bounds. -/
structure IsMap (n : ℕ) (ops : List Op) : Prop where
  get : ∀ seq, (table key (2 ^ n) ops).get key seq = contents key ops seq
  answers : ∀ op, (call key (table key (2 ^ n) ops) op).2 = (answer key (contents key ops) op).2
  once : ∀ i j u v, (table key (2 ^ n) ops).values i = some u →
    (table key (2 ^ n) ops).values j = some v → key u = key v → i = j
  inside : ∀ i v, (table key (2 ^ n) ops).values i = some v → i < (table key (2 ^ n) ops).size
  size : ∃ m ≤ 31, (table key (2 ^ n) ops).size = 2 ^ m
  mask : (mask (table key (2 ^ n) ops).size).toNat = (table key (2 ^ n) ops).size - 1
  pos : 0 < (table key (2 ^ n) ops).size
  index : ∀ seq, index (table key (2 ^ n) ops).size seq < (table key (2 ^ n) ops).size
  /-- The doubling was left by its own test. -/
  ends : ∀ val before, ops = .set val :: before → ∀ v,
    (table key (2 ^ n) before).values (Cirbuf.index (table key (2 ^ n) before).size (key val)) = some v →
      key v ≠ key val → Cirbuf.index (table key (2 ^ n) ops).size (key v) ≠
        Cirbuf.index (table key (2 ^ n) ops).size (key val)
  /-- Keys close together never need more than a slot for each number of their span. -/
  span : ∀ width k, width ≤ 2 ^ k → (∀ before, before <:+ ops → Span key width (table key (2 ^ n) before)) →
    (table key (2 ^ n) ops).size ≤ max (2 ^ n) (2 ^ k)

/-- Every value was set when no stored key differed from its own in the top bit alone. -/
def Apart (n : ℕ) (ops : List Op) : Prop :=
  ∀ val before, .set val :: before <:+ ops → ∀ v, (table key (2 ^ n) before).Stored v →
    key v ≠ key val + 0x80000000#32

end

/-! ### The doubling -/

theorem half_toNat : (0x80000000#32 : SeqNo).toNat = 2147483648 := rfl

theorem low_eq_iff {a b : SeqNo} :
    a.toNat % 2 ^ 31 = b.toNat % 2 ^ 31 ↔ a = b ∨ a = b + 0x80000000#32 := by
  constructor
  · intro h
    by_cases hab : a = b
    · exact .inl hab
    · right
      have hne : a.toNat ≠ b.toNat := fun e => hab (BitVec.eq_of_toNat_eq e)
      apply BitVec.eq_of_toNat_eq
      have ha := a.isLt
      have hb := b.isLt
      rw [BitVec.toNat_add, half_toNat]
      omega
  · rintro (rfl | rfl)
    · rfl
    · rw [BitVec.toNat_add, half_toNat]
      omega

theorem opposite_ne (a : SeqNo) : a + 0x80000000#32 ≠ a := by
  intro h
  have := congrArg BitVec.toNat h
  rw [BitVec.toNat_add, half_toNat] at this
  have ha := a.isLt
  omega

/-- Keys that differ in the top bit alone drive the size to 0. -/
theorem grow_opposite {a b : SeqNo} (hlow : a.toNat % 2 ^ 31 = b.toNat % 2 ^ 31) (hne : a ≠ b)
    (fuel n : ℕ) (hn : n ≤ 31) (hfuel : 32 ≤ n + fuel) : grow a b fuel (2 ^ n) = 0 := by
  induction fuel generalizing n with
  | zero => omega
  | succ fuel ih =>
    have htop : index (2 ^ 31) a = index (2 ^ 31) b := by
      rw [index_eq (Nat.le_refl _), index_eq (Nat.le_refl _)]
      exact hlow
    unfold grow
    rw [if_pos (index_of_le hn (Nat.le_refl _) htop)]
    by_cases h31 : n = 31
    · subst h31
      have hzero : 2 ^ 31 * 2 % 2 ^ 32 = 0 := by omega
      rw [hzero]
      cases fuel with
      | zero => rfl
      | succ fuel =>
        -- all bits count under a mask of ones
        have hall : ∀ seq : SeqNo, index 0 seq = seq.toNat := fun seq => by
          unfold index mask
          rw [show BitVec.ofNat 32 0 - 1 = BitVec.allOnes 32 from by decide, BitVec.and_allOnes]
        unfold grow
        rw [if_neg]
        rw [hall, hall]
        exact fun e => hne (BitVec.eq_of_toNat_eq e)
    · have hdouble : 2 ^ n * 2 % 2 ^ 32 = 2 ^ (n + 1) := by
        have : 2 ^ (n + 1) ≤ 2 ^ 31 := Nat.pow_le_pow_right (by decide) (by omega)
        rw [← Nat.pow_succ]
        exact Nat.mod_eq_of_lt (by omega)
      rw [hdouble]
      exact ih (n + 1) (by omega) (by omega)

/-- The doubling goes no further than a size that tells the keys apart. -/
theorem grow_le {a b : SeqNo} {k : ℕ} (hk : k ≤ 31) (hab : index (2 ^ k) a ≠ index (2 ^ k) b)
    (fuel n : ℕ) (hn : n ≤ 31) : grow a b fuel (2 ^ n) ≤ max (2 ^ n) (2 ^ k) := by
  induction fuel generalizing n with
  | zero => exact Nat.le_max_left ..
  | succ fuel ih =>
    unfold grow
    split
    · next heq =>
      by_cases hkn : k ≤ n
      · exact absurd (index_of_le hkn hn heq) hab
      · have hdouble : 2 ^ n * 2 % 2 ^ 32 = 2 ^ (n + 1) := by
          have : 2 ^ (n + 1) ≤ 2 ^ 31 := Nat.pow_le_pow_right (by decide) (by omega)
          rw [← Nat.pow_succ]
          exact Nat.mod_eq_of_lt (by omega)
        rw [hdouble]
        have hle : 2 ^ (n + 1) ≤ 2 ^ k := Nat.pow_le_pow_right (by decide) (by omega)
        have := ih (n + 1) (by omega)
        omega
    · exact Nat.le_max_left ..

/-- Numbers of a short span are told apart by their low bits. -/
theorem index_ne_of_span {a b first : SeqNo} {k : ℕ} (hk : k ≤ 31) (hab : a ≠ b)
    (ha : (a - first).toNat < 2 ^ k) (hb : (b - first).toNat < 2 ^ k) :
    index (2 ^ k) a ≠ index (2 ^ k) b := by
  have hdvd : 2 ^ k ∣ 2 ^ 32 := Nat.pow_dvd_pow 2 (by omega)
  rw [index_eq hk, index_eq hk]
  intro h
  have hmod : ∀ x : SeqNo, (x - first).toNat % 2 ^ k = (2 ^ 32 - first.toNat + x.toNat) % 2 ^ k :=
    fun x => by rw [BitVec.toNat_sub, Nat.mod_mod_of_dvd _ hdvd]
  have heq : (a - first).toNat = (b - first).toNat := by
    rw [← Nat.mod_eq_of_lt ha, ← Nat.mod_eq_of_lt hb, hmod, hmod, Nat.add_mod, h, ← Nat.add_mod]
  have : a - first = b - first := BitVec.eq_of_toNat_eq heq
  exact hab (by simpa using congrArg (· + first) this)

/-! ### Runs -/

variable {key : ℕ → SeqNo}

theorem WF.get_iff {c : Cirbuf} (h : WF key c) {seq : SeqNo} {v : ℕ} :
    c.get key seq = some v ↔ c.Stored v ∧ key v = seq := by
  constructor
  · intro hget
    unfold Cirbuf.get at hget
    obtain ⟨hv, hk⟩ := Option.filter_eq_some_iff.mp hget
    exact ⟨⟨_, hv⟩, of_decide_eq_true hk⟩
  · rintro ⟨hv, rfl⟩
    exact h.get hv

/-- The table is well formed and holds the map `m`. -/
structure Holds (c : Cirbuf) (key : ℕ → SeqNo) (m : SeqNo → Option ℕ) : Prop where
  wf : WF key c
  keyed : ∀ {seq v}, m seq = some v → key v = seq
  stored : ∀ v, c.Stored v ↔ m (key v) = some v

theorem Holds.get {c : Cirbuf} {m : SeqNo → Option ℕ} (h : Holds c key m) (seq : SeqNo) :
    c.get key seq = m seq := by
  apply Option.ext
  intro v
  rw [h.wf.get_iff, h.stored]
  constructor
  · rintro ⟨hv, rfl⟩
    exact hv
  · intro hv
    have hk := h.keyed hv
    exact ⟨hk ▸ hv, hk⟩

theorem Holds.init {n : ℕ} (hn : n ≤ 31) : Holds (Cirbuf.init (2 ^ n)) key fun _ => none where
  wf := WF.init hn
  keyed h := by cases h
  stored v := by
    constructor
    · rintro ⟨_, h⟩
      cases h
    · intro h
      cases h

/-- A value whose key is apart from the others goes under its key. -/
theorem Holds.set {c : Cirbuf} {m : SeqNo → Option ℕ} (h : Holds c key m) {val : ℕ}
    (hapart : ∀ v, c.Stored v → key v ≠ key val + 0x80000000#32) :
    Holds (c.set key val) key (Function.update m (key val) (some val)) := by
  have hlow : ∀ v, c.Stored v → key v ≠ key val → (key v).toNat % 2 ^ 31 ≠ (key val).toNat % 2 ^ 31 := by
    intro v hv hne heq
    rcases low_eq_iff.mp heq with he | he
    · exact hne he
    · exact hapart v hv he
  obtain ⟨hwf, hstored⟩ := h.wf.set val hlow
  refine ⟨hwf, fun {seq v} hv => ?_, fun v => ?_⟩
  · by_cases hs : seq = key val
    · subst hs
      rw [Function.update_self] at hv
      rw [Option.some.inj hv]
    · rw [Function.update_of_ne hs] at hv
      exact h.keyed hv
  · rw [hstored]
    by_cases hk : key v = key val
    · rw [hk, Function.update_self, Option.some.injEq]
      exact ⟨fun hv => hv.elim Eq.symm fun hv => absurd rfl hv.2, fun hv => .inl hv.symm⟩
    · rw [Function.update_of_ne hk, ← h.stored]
      exact ⟨fun hv => hv.elim (fun e => absurd (congrArg key e) hk) And.left, fun hv => .inr ⟨hv, hk⟩⟩

theorem Holds.remove {c : Cirbuf} {m : SeqNo → Option ℕ} (h : Holds c key m) (seq : SeqNo) :
    Holds (c.remove key seq) key (Function.update m seq none) := by
  obtain ⟨hwf, hstored⟩ := h.wf.remove seq
  refine ⟨hwf, fun {s v} hv => ?_, fun v => ?_⟩
  · by_cases hs : s = seq
    · rw [hs, Function.update_self] at hv
      cases hv
    · rw [Function.update_of_ne hs] at hv
      exact h.keyed hv
  · rw [hstored]
    by_cases hk : key v = seq
    · rw [hk, Function.update_self]
      exact ⟨fun hv => absurd rfl hv.2, fun hv => by cases hv⟩
    · rw [Function.update_of_ne hk, ← h.stored]
      exact ⟨And.left, fun hv => ⟨hv, hk⟩⟩

/-- After calls that keep the keys apart the table holds the map. -/
theorem Apart.holds {n : ℕ} (hn : n ≤ 31) {ops : List Op} (h : Apart key n ops) :
    Holds (table key (2 ^ n) ops) key (contents key ops) := by
  induction ops with
  | nil => exact Holds.init hn
  | cons op ops ih =>
    have hops := ih fun val before hb => h val before (hb.trans (List.suffix_cons op ops))
    cases op with
    | set val => exact hops.set (h val ops (List.suffix_refl _))
    | get seq => exact hops
    | remove seq => exact hops.remove seq

theorem set_size {c : Cirbuf} {val : ℕ} :
    (c.set key val).size = c.size ∨ ∃ v, c.values (index c.size (key val)) = some v ∧
      key v ≠ key val ∧ (c.set key val).size = grow (key v) (key val) 32 c.size := by
  unfold Cirbuf.set
  dsimp only
  split
  · exact .inl rfl
  · next v hv =>
    split
    · exact .inl rfl
    · next hk => exact .inr ⟨v, hv, hk, rfl⟩

/-- A value that meets one in its slot with another key makes the table double. -/
theorem set_collides {c : Cirbuf} {val v : ℕ} (hv : c.values (index c.size (key val)) = some v)
    (hk : key v ≠ key val) : c.set key val = c.enlarge key val v := by
  unfold Cirbuf.set
  dsimp only
  rw [hv]
  dsimp only
  rw [if_neg hk]

theorem Apart.span {n : ℕ} (hn : n ≤ 31) {width k : ℕ} (hwidth : width ≤ 2 ^ k) {ops : List Op}
    (h : Apart key n ops) (hspan : ∀ before, before <:+ ops → Span key width (table key (2 ^ n) before)) :
    (table key (2 ^ n) ops).size ≤ max (2 ^ n) (2 ^ k) := by
  by_cases hk : k ≤ 31
  · induction ops with
    | nil => exact Nat.le_max_left ..
    | cons op ops ih =>
      have hbefore : Apart key n ops :=
        fun val before hb => h val before (hb.trans (List.suffix_cons op ops))
      have hops := ih hbefore fun before hb => hspan before (hb.trans (List.suffix_cons op ops))
      cases op with
      | get seq => exact hops
      | remove seq =>
        rw [table, call, remove_size]
        exact hops
      | set val =>
        rcases @set_size key (table key (2 ^ n) ops) val with hs | ⟨v, hv, hne, hs⟩
        · rw [table, call, hs]
          exact hops
        · -- both keys are stored now, so both lie in the span
          obtain ⟨first, hfirst⟩ := hspan _ (List.suffix_refl _)
          have hold := hbefore.holds hn
          have hnew := h.holds hn
          have hstored : ∀ w, key w = key val ∧ w = val ∨ w = v →
              (table key (2 ^ n) (.set val :: ops)).Stored w := by
            intro w hw
            rw [hnew.stored]
            rcases hw with ⟨-, rfl⟩ | rfl
            · exact Function.update_self ..
            · change Function.update _ _ _ _ = _
              rw [Function.update_of_ne hne]
              exact (hold.stored w).mp ⟨_, hv⟩
          have hapart := index_ne_of_span hk hne
            (Nat.lt_of_lt_of_le (hfirst v (hstored v (.inr rfl))) hwidth)
            (Nat.lt_of_lt_of_le (hfirst val (hstored val (.inl ⟨rfl, rfl⟩))) hwidth)
          obtain ⟨m, hm, hsize⟩ := hold.wf.size
          have hle := grow_le hk hapart 32 m hm
          rw [table, call, hs, hsize]
          rw [hsize] at hops
          omega
  · obtain ⟨m, hm, hsize⟩ := (h.holds hn).wf.size
    have : 2 ^ m ≤ 2 ^ k := Nat.pow_le_pow_right (by decide) (by omega)
    rw [hsize]
    exact Nat.le_trans this (Nat.le_max_right ..)

theorem Apart.isMap {n : ℕ} (hn : n ≤ 31) {ops : List Op} (h : Apart key n ops) : IsMap key n ops := by
  have hholds := h.holds hn
  obtain ⟨m, hm, hsize⟩ := hholds.wf.size
  refine ⟨hholds.get, fun op => ?_, fun i j u v hu hv hk => ?_, fun i v hv => ?_, ⟨m, hm, hsize⟩, ?_, ?_,
    hholds.wf.index_lt, fun val before hops v hv hk => ?_, fun width k hwidth hspan => h.span hn hwidth hspan⟩
  · cases op with
    | set val => rfl
    | get seq => exact hholds.get seq
    | remove seq => exact hholds.get seq
  · rw [hholds.wf.slot hu, hholds.wf.slot hv, hk]
  · rw [hholds.wf.slot hv]
    exact hholds.wf.index_lt _
  · rw [hsize]
    exact mask_toNat hm
  · rw [hsize]
    exact Nat.two_pow_pos m
  · subst hops
    have hbefore : Apart key n before :=
      fun val before' hb => h val before' (hb.trans (List.suffix_cons _ _))
    have hlow : (key v).toNat % 2 ^ 31 ≠ (key val).toNat % 2 ^ 31 := fun heq =>
      (low_eq_iff.mp heq).elim hk (h val before (List.suffix_refl _) v ⟨_, hv⟩)
    obtain ⟨m', hm', hsize'⟩ := (hbefore.holds hn).wf.size
    obtain ⟨m'', -, -, hgrow, hne⟩ := grow_spec hlow 32 m' hm' (by omega)
    rw [table, call, set_collides hv hk]
    unfold enlarge
    dsimp only
    rw [hsize', hgrow]
    exact hne

/-- The table is the map after all calls so far if and only if no value was set
while one was stored whose key differs in the top bit alone. -/
theorem isMap_iff {n : ℕ} (hn : n ≤ 31) (ops : List Op) :
    (∀ before, before <:+ ops → IsMap key n before) ↔ Apart key n ops := by
  constructor
  · intro h
    induction ops with
    | nil => exact fun val before hb => by cases List.suffix_nil.mp hb
    | cons op ops ih =>
      have hops := ih fun before hb => h before (hb.trans (List.suffix_cons op ops))
      intro val before hb
      rcases List.suffix_cons_iff.mp hb with heq | hb
      · cases heq
        intro v hv hopp
        have hholds := hops.holds hn
        have hlow : (key v).toNat % 2 ^ 31 = (key val).toNat % 2 ^ 31 := low_eq_iff.mpr (.inr hopp)
        have hne : key v ≠ key val := hopp ▸ opposite_ne _
        obtain ⟨m, hm, hsize⟩ := hholds.wf.size
        -- the two share a slot of every table, so the doubling runs to 0
        have hslot : (table key (2 ^ n) ops).values (index (table key (2 ^ n) ops).size (key val)) =
            some v := by
          have hindex : index (table key (2 ^ n) ops).size (key val) =
              index (table key (2 ^ n) ops).size (key v) := by
            rw [hsize]
            refine index_of_le hm (Nat.le_refl _) ?_
            rw [index_eq (Nat.le_refl _), index_eq (Nat.le_refl _)]
            exact hlow.symm
          rw [hindex]
          exact hholds.wf.value hv
        have hpos := (h (.set val :: ops) (List.suffix_refl _)).pos
        rw [table, call, set_collides hslot hne] at hpos
        unfold enlarge at hpos
        dsimp only at hpos
        rw [hsize, grow_opposite hlow hne 32 m hm (by omega)] at hpos
        exact absurd hpos (Nat.lt_irrefl 0)
      · exact hops val before hb
  · intro h before hb
    exact Apart.isMap hn fun val before' hb' => h val before' (hb'.trans hb)

/-- What is stored was set. -/
theorem stored_set {size : ℕ} {ops : List Op} {v : ℕ} (h : (table key size ops).Stored v) :
    .set v ∈ ops := by
  induction ops with
  | nil =>
    obtain ⟨_, h⟩ := h
    cases h
  | cons op ops ih =>
    cases op with
    | set val =>
      rcases set_stored h with rfl | h
      · exact List.mem_cons_self
      · exact List.mem_cons_of_mem _ (ih h)
    | get seq => exact List.mem_cons_of_mem _ (ih h)
    | remove seq => exact List.mem_cons_of_mem _ (ih (remove_stored h))

/-- Four neighbours in a table of two slots. -/
theorem isMap_four :
    IsMap (BitVec.ofNat 32 ·) 1 [.set 3, .remove 0, .set 2, .set 1, .set 0] := by
  refine (isMap_iff (by decide) _).mpr (fun val before hb v hv => ?_) _ (List.suffix_refl _)
  have hval := hb.subset List.mem_cons_self
  have hset := hb.subset (List.mem_cons_of_mem _ (stored_set hv))
  simp only [List.mem_cons, Op.set.injEq, reduceCtorEq, false_or, List.not_mem_nil, or_false] at hval hset
  rcases hval with rfl | rfl | rfl | rfl <;> rcases hset with rfl | rfl | rfl | rfl <;> decide

/-- Keys 0 and 2^31 in the table of a new stream. -/
theorem isMap_opposite : ¬ IsMap (fun v => BitVec.ofNat 32 (v * 2 ^ 31)) 4 [.set 1, .set 0] := by
  intro h
  have hsize : (table (fun v => BitVec.ofNat 32 (v * 2 ^ 31)) (2 ^ 4) [.set 1, .set 0]).size = 0 := by
    decide +kernel
  have := h.pos
  rw [hsize] at this
  exact absurd this (Nat.lt_irrefl 0)

end Cirbuf
