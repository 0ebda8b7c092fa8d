/-
# Tables keyed by 32-bit sequence numbers (cirbuf.c)

A power of two of slots; a value goes to the slot of the low bits of its key,
and the table doubles until two keys that collide come apart. The size is a
`uint32_t`: keys that differ in their top bit alone would make it wrap to 0,
and keys that differ in the low 31 bits never do (`Cirbuf.WF.set`).

Key definitions: `Cirbuf`, `Cirbuf.set`, `Cirbuf.remove`, `Cirbuf.WF`.
Key theorems: `Cirbuf.WF.set`, `Cirbuf.WF.remove`, `Cirbuf.WF.get`.
-/
import Udx.Serial
import Mathlib.Logic.Function.Basic

/-- `udx_cirbuf_t`; a value is a number. -/
structure Cirbuf where
  size : ℕ := 0
  /-- `values != NULL`. -/
  live : Bool := false
  values : ℕ → Option ℕ := fun _ => none

namespace Cirbuf

open Serial

/-- `c->mask`, that is `size - 1` as a `uint32_t`. -/
def mask (size : ℕ) : SeqNo := BitVec.ofNat 32 size - 1

/-- The slot of a key. -/
def index (size : ℕ) (seq : SeqNo) : ℕ := (seq &&& mask size).toNat

/-- `udx__cirbuf_init`. -/
def init (size : ℕ) : Cirbuf := { size := size, live := true }

/-- `udx__cirbuf_destroy`. -/
def destroy (_ : Cirbuf) : Cirbuf := {}

/-- Write to a slot. -/
def write (c : Cirbuf) (i : ℕ) (v : Option ℕ) : Cirbuf :=
  { c with values := Function.update c.values i v }

theorem write_self (c : Cirbuf) (i : ℕ) (v : Option ℕ) : (c.write i v).values i = v :=
  Function.update_self ..

theorem write_of_ne {c : Cirbuf} {i j : ℕ} {v : Option ℕ} (h : j ≠ i) :
    (c.write i v).values j = c.values j := Function.update_of_ne h ..

/-- The doubling of `udx__cirbuf_set`, at most `n` times, while `a` and `b`
collide. -/
def grow (a b : SeqNo) : ℕ → ℕ → ℕ
  | 0, size => size
  | n + 1, size => if index size a = index size b then grow a b n (size * 2 % 2 ^ 32) else size

section

variable (key : ℕ → SeqNo)

/-- The copying of the first `n` old slots. -/
def rehash (size : ℕ) (old : ℕ → Option ℕ) : ℕ → (ℕ → Option ℕ) → ℕ → Option ℕ
  | 0, values => values
  | n + 1, values =>
    let values := rehash size old n values
    match old n with
    | none => values
    | some v => Function.update values (index size (key v)) (some v)

/-- `udx__cirbuf_set`, where `v` has the slot of the new value. -/
def enlarge (c : Cirbuf) (val v : ℕ) : Cirbuf :=
  let size := grow (key v) (key val) 32 c.size
  let values := Function.update (fun _ => none) (index size (key val)) (some val)
  { c with size := size, values := rehash key size c.values c.size values }

def set (c : Cirbuf) (val : ℕ) : Cirbuf :=
  let i := index c.size (key val)
  match c.values i with
  | none => c.write i (some val)
  | some v => if key v = key val then c.write i (some val) else enlarge key c val v

/-- `udx__cirbuf_get`. -/
def get (c : Cirbuf) (seq : SeqNo) : Option ℕ :=
  (c.values (index c.size seq)).filter fun v => decide (key v = seq)

/-- `udx__cirbuf_remove`. -/
def remove (c : Cirbuf) (seq : SeqNo) : Cirbuf :=
  match get key c seq with
  | none => c
  | some _ => c.write (index c.size seq) none

/-! ### Well-formed tables -/

/-- A value is in the table. -/
def Stored (c : Cirbuf) (v : ℕ) : Prop := ∃ i, c.values i = some v

/-- The size is a power of two, and every value is in the slot of its key. -/
structure WF (c : Cirbuf) : Prop where
  size : ∃ n ≤ 31, c.size = 2 ^ n
  slot : ∀ {i v}, c.values i = some v → i = index c.size (key v)

end

theorem mask_toNat {n : ℕ} (hn : n ≤ 31) : (mask (2 ^ n)).toNat = 2 ^ n - 1 := by
  have hlt : 2 ^ n ≤ 2 ^ 31 := Nat.pow_le_pow_right (by decide) hn
  have hpos : 0 < 2 ^ n := Nat.two_pow_pos n
  unfold mask
  rw [BitVec.toNat_sub_of_le]
  · rw [BitVec.toNat_ofNat, Nat.mod_eq_of_lt (by omega)]
    rfl
  · rw [BitVec.le_def, BitVec.toNat_ofNat, Nat.mod_eq_of_lt (by omega)]
    exact hpos

theorem index_eq {n : ℕ} (hn : n ≤ 31) (seq : SeqNo) : index (2 ^ n) seq = seq.toNat % 2 ^ n := by
  unfold index
  rw [BitVec.toNat_and, mask_toNat hn, Nat.and_two_pow_sub_one_eq_mod]

theorem index_lt {n : ℕ} (hn : n ≤ 31) (seq : SeqNo) : index (2 ^ n) seq < 2 ^ n := by
  rw [index_eq hn]
  exact Nat.mod_lt _ (Nat.two_pow_pos n)

/-- Keys in one slot of a table are in one slot of every smaller one. -/
theorem index_of_le {n m : ℕ} (hnm : n ≤ m) (hm : m ≤ 31) {a b : SeqNo}
    (h : index (2 ^ m) a = index (2 ^ m) b) : index (2 ^ n) a = index (2 ^ n) b := by
  rw [index_eq hm, index_eq hm] at h
  rw [index_eq (Nat.le_trans hnm hm), index_eq (Nat.le_trans hnm hm)]
  have hdvd : 2 ^ n ∣ 2 ^ m := Nat.pow_dvd_pow 2 hnm
  rw [← Nat.mod_mod_of_dvd _ hdvd, h, Nat.mod_mod_of_dvd _ hdvd]

theorem grow_spec {a b : SeqNo} (hab : a.toNat % 2 ^ 31 ≠ b.toNat % 2 ^ 31) (fuel n : ℕ)
    (hn : n ≤ 31) (hfuel : 31 ≤ n + fuel) :
    ∃ m, n ≤ m ∧ m ≤ 31 ∧ grow a b fuel (2 ^ n) = 2 ^ m ∧ index (2 ^ m) a ≠ index (2 ^ m) b := by
  have htop : index (2 ^ 31) a ≠ index (2 ^ 31) b := by
    rw [index_eq (Nat.le_refl _), index_eq (Nat.le_refl _)]
    exact hab
  induction fuel generalizing n with
  | zero =>
    obtain rfl : n = 31 := by omega
    exact ⟨31, Nat.le_refl _, Nat.le_refl _, rfl, htop⟩
  | succ fuel ih =>
    unfold grow
    split
    · next heq =>
      have hlt : n ≠ 31 := fun e => htop (e ▸ heq)
      have hdouble : 2 ^ n * 2 % 2 ^ 32 = 2 ^ (n + 1) := by
        have : 2 ^ (n + 1) ≤ 2 ^ 31 := Nat.pow_le_pow_right (by decide) (by omega)
        rw [← Nat.pow_succ]
        exact Nat.mod_eq_of_lt (by omega)
      rw [hdouble]
      obtain ⟨m, hm, hrest⟩ := ih (n + 1) (by omega) (by omega)
      exact ⟨m, Nat.le_of_succ_le hm, hrest⟩
    · next hne => exact ⟨n, Nat.le_refl _, hn, rfl, hne⟩

variable {key : ℕ → SeqNo}

/-- The copied slots win over what was there. -/
theorem rehash_eq_some {size : ℕ} {old : ℕ → Option ℕ} (values : ℕ → Option ℕ) (n : ℕ)
    (hinj : ∀ {i j u v}, old i = some u → old j = some v →
      index size (key u) = index size (key v) → i = j) (x w : ℕ) :
    rehash key size old n values x = some w ↔
      (∃ i < n, old i = some w ∧ index size (key w) = x) ∨
        (values x = some w ∧ ∀ i < n, ∀ u, old i = some u → index size (key u) ≠ x) := by
  induction n with
  | zero => simp [rehash]
  | succ n ih =>
    unfold rehash
    dsimp only
    cases hn : old n with
    | none =>
      dsimp only
      rw [ih]
      constructor
      · rintro (⟨i, hi, h⟩ | ⟨hv, hnone⟩)
        · exact .inl ⟨i, by omega, h⟩
        · refine .inr ⟨hv, fun i hi u hu => ?_⟩
          rcases Nat.lt_succ_iff_lt_or_eq.mp hi with hi | rfl
          · exact hnone i hi u hu
          · rw [hn] at hu
            cases hu
      · rintro (⟨i, hi, h⟩ | ⟨hv, hnone⟩)
        · rcases Nat.lt_succ_iff_lt_or_eq.mp hi with hi | rfl
          · exact .inl ⟨i, hi, h⟩
          · rw [hn] at h
            cases h.1
        · exact .inr ⟨hv, fun i hi => hnone i (by omega)⟩
    | some v =>
      dsimp only
      by_cases hx : x = index size (key v)
      · subst hx
        rw [Function.update_self, Option.some.injEq]
        constructor
        · rintro rfl
          exact .inl ⟨n, by omega, hn, rfl⟩
        · rintro (⟨i, hi, hw, hidx⟩ | ⟨-, hnone⟩)
          · have := hinj hw hn hidx
            subst this
            rw [hn] at hw
            exact Option.some.inj hw
          · exact absurd rfl (hnone n (by omega) v hn)
      · rw [Function.update_of_ne hx, ih]
        constructor
        · rintro (⟨i, hi, h⟩ | ⟨hv, hnone⟩)
          · exact .inl ⟨i, by omega, h⟩
          · refine .inr ⟨hv, fun i hi u hu => ?_⟩
            rcases Nat.lt_succ_iff_lt_or_eq.mp hi with hi | rfl
            · exact hnone i hi u hu
            · rw [hn] at hu
              obtain rfl := Option.some.inj hu
              exact fun e => hx e.symm
        · rintro (⟨i, hi, h⟩ | ⟨hv, hnone⟩)
          · rcases Nat.lt_succ_iff_lt_or_eq.mp hi with hi | rfl
            · exact .inl ⟨i, hi, h⟩
            · rw [hn] at h
              obtain rfl := Option.some.inj h.1
              exact absurd h.2.symm hx
          · exact .inr ⟨hv, fun i hi => hnone i (by omega)⟩

theorem remove_size (c : Cirbuf) (seq : SeqNo) : (c.remove key seq).size = c.size := by
  unfold remove
  split <;> rfl

theorem remove_stored {c : Cirbuf} {seq : SeqNo} {v : ℕ} (h : (c.remove key seq).Stored v) :
    c.Stored v := by
  unfold remove at h
  split at h
  · exact h
  · obtain ⟨i, hi⟩ := h
    by_cases he : i = index c.size seq
    · rw [he, write_self] at hi
      cases hi
    · rw [write_of_ne he] at hi
      exact ⟨i, hi⟩

/-- What a table holds after `set` was there before, or is the value set. -/
theorem set_stored {c : Cirbuf} {val v : ℕ} (h : (c.set key val).Stored v) :
    v = val ∨ c.Stored v := by
  have hwrite : ∀ {i}, (c.write i (some val)).Stored v → v = val ∨ c.Stored v := by
    rintro i ⟨j, hj⟩
    by_cases he : j = i
    · rw [he, write_self] at hj
      exact .inl (Option.some.inj hj).symm
    · rw [write_of_ne he] at hj
      exact .inr ⟨j, hj⟩
  have hrehash : ∀ size values n i, rehash key size c.values n values i = some v →
      c.Stored v ∨ values i = some v := by
    intro size values n i hi
    induction n with
    | zero => exact .inr hi
    | succ n ih =>
      unfold rehash at hi
      dsimp only at hi
      cases hn : c.values n with
      | none =>
        rw [hn] at hi
        exact ih hi
      | some w =>
        rw [hn] at hi
        dsimp only at hi
        by_cases he : i = index size (key w)
        · rw [he, Function.update_self] at hi
          exact .inl ⟨n, hn.trans hi⟩
        · rw [Function.update_of_ne he] at hi
          exact ih hi
  unfold set at h
  dsimp only at h
  split at h
  · exact hwrite h
  · split at h
    · exact hwrite h
    · next u _ _ =>
      obtain ⟨i, hi⟩ := h
      rcases hrehash _ _ _ i hi with hv | hv
      · exact .inr hv
      · by_cases he : i = index (grow (key u) (key val) 32 c.size) (key val)
        · rw [he, Function.update_self] at hv
          exact .inl (Option.some.inj hv).symm
        · rw [Function.update_of_ne he] at hv
          cases hv

theorem remove_live (c : Cirbuf) (seq : SeqNo) : (c.remove key seq).live = c.live := by
  unfold remove
  split <;> rfl

theorem set_live (c : Cirbuf) (val : ℕ) : (c.set key val).live = c.live := by
  unfold set
  dsimp only
  split
  · rfl
  · split <;> rfl

namespace WF

variable {c : Cirbuf}

theorem init {n : ℕ} (hn : n ≤ 31) : WF key (Cirbuf.init (2 ^ n)) :=
  ⟨⟨n, hn, rfl⟩, fun h => by cases h⟩

/-- `get` finds what is stored. -/
theorem get (h : WF key c) {v : ℕ} (hv : c.Stored v) : c.get key (key v) = some v := by
  obtain ⟨i, hi⟩ := hv
  have hslot := h.slot hi
  unfold Cirbuf.get
  rw [← hslot, hi]
  simp

/-- A key has one value at most. -/
theorem unique (h : WF key c) {v w : ℕ} (hv : c.Stored v) (hw : c.Stored w) (hk : key v = key w) :
    v = w := by
  have hget := h.get hv
  rw [hk, h.get hw] at hget
  exact (Option.some.inj hget).symm

theorem index_lt (h : WF key c) (seq : SeqNo) : Cirbuf.index c.size seq < c.size := by
  obtain ⟨n, hn, hsize⟩ := h.size
  rw [hsize]
  exact Cirbuf.index_lt hn seq

/-- A value is in the slot of its key. -/
theorem value (h : WF key c) {v : ℕ} (hv : c.Stored v) :
    c.values (index c.size (key v)) = some v := by
  obtain ⟨i, hi⟩ := hv
  rw [← h.slot hi]
  exact hi

/-- Only the keys of what is stored matter. -/
theorem congr {key' : ℕ → SeqNo} (h : WF key c) (hk : ∀ {v}, c.Stored v → key' v = key v) :
    WF key' c :=
  ⟨h.size, fun {i v} hi => by rw [hk ⟨i, hi⟩]; exact h.slot hi⟩

theorem remove (h : WF key c) (seq : SeqNo) :
    WF key (c.remove key seq) ∧ ∀ v, (c.remove key seq).Stored v ↔ c.Stored v ∧ key v ≠ seq := by
  unfold Cirbuf.remove
  split
  · next hget =>
    refine ⟨h, fun v => ⟨fun hv => ⟨hv, fun hk => ?_⟩, And.left⟩⟩
    rw [← hk, h.get hv] at hget
    cases hget
  · next u hget =>
    have hu : c.values (index c.size seq) = some u ∧ key u = seq := by
      unfold Cirbuf.get at hget
      simpa [Option.filter_eq_some_iff] using hget
    refine ⟨⟨h.size, fun {i v} hi => ?_⟩, fun v => ⟨?_, ?_⟩⟩
    · by_cases he : i = index c.size seq
      · rw [he, write_self] at hi
        cases hi
      · rw [write_of_ne he] at hi
        exact h.slot hi
    · rintro ⟨i, hi⟩
      by_cases he : i = index c.size seq
      · rw [he, write_self] at hi
        cases hi
      · rw [write_of_ne he] at hi
        exact ⟨⟨i, hi⟩, fun hk => he (hk ▸ h.slot hi)⟩
    · rintro ⟨⟨i, hi⟩, hk⟩
      refine ⟨i, ?_⟩
      have he : i ≠ index c.size seq := by
        rintro rfl
        rw [hu.1] at hi
        exact hk (Option.some.inj hi ▸ hu.2)
      rw [write_of_ne he]
      exact hi

/-- A value that finds its slot free, or with its own key in it. -/
theorem put (h : WF key c) {val : ℕ}
    (hfree : ∀ v, c.values (index c.size (key val)) = some v → key v = key val) :
    let t := c.write (index c.size (key val)) (some val)
    WF key t ∧ ∀ v, t.Stored v ↔ v = val ∨ c.Stored v ∧ key v ≠ key val := by
  dsimp only
  refine ⟨⟨h.size, fun {i v} hi => ?_⟩, fun v => ⟨?_, ?_⟩⟩
  · by_cases he : i = index c.size (key val)
    · rw [he, write_self] at hi
      rw [← Option.some.inj hi]
      exact he
    · rw [write_of_ne he] at hi
      exact h.slot hi
  · rintro ⟨i, hi⟩
    by_cases he : i = index c.size (key val)
    · rw [he, write_self] at hi
      exact .inl (Option.some.inj hi).symm
    · rw [write_of_ne he] at hi
      exact .inr ⟨⟨i, hi⟩, fun hk => he (hk ▸ h.slot hi)⟩
  · rintro (rfl | ⟨⟨i, hi⟩, hk⟩)
    · exact ⟨index c.size (key v), write_self ..⟩
    · refine ⟨i, ?_⟩
      have he : i ≠ index c.size (key val) := by
        rintro rfl
        exact hk (hfree v hi)
      rw [write_of_ne he]
      exact hi

/-- Two values that collide come apart in a larger table. -/
theorem enlarge (h : WF key c) {val v : ℕ} (hv : c.values (index c.size (key val)) = some v)
    (hlow : (key v).toNat % 2 ^ 31 ≠ (key val).toNat % 2 ^ 31) :
    WF key (c.enlarge key val v) ∧ ∀ w, (c.enlarge key val v).Stored w ↔
      w = val ∨ c.Stored w ∧ key w ≠ key val := by
  obtain ⟨n, hn, hsize⟩ := h.size
  obtain ⟨m, hnm, hm, hgrow, hne⟩ := grow_spec hlow 32 n hn (by omega)
  have hinj : ∀ {i j u w}, c.values i = some u → c.values j = some w →
      index (2 ^ m) (key u) = index (2 ^ m) (key w) → i = j := by
    intro i j u w hu hw hidx
    rw [h.slot hu, h.slot hw, hsize]
    exact index_of_le hnm hm hidx
  have hold : ∀ {u}, c.Stored u → index (2 ^ m) (key u) ≠ index (2 ^ m) (key val) := by
    rintro u ⟨i, hi⟩ hidx
    have hslot : i = index c.size (key val) := by
      rw [h.slot hi, hsize]
      exact index_of_le hnm hm hidx
    rw [hslot, hv] at hi
    obtain rfl := Option.some.inj hi
    exact hne hidx
  have hvalues : ∀ x w, (c.enlarge key val v).values x = some w ↔
      (c.Stored w ∧ index (2 ^ m) (key w) = x) ∨ (w = val ∧ x = index (2 ^ m) (key val)) := by
    intro x w
    unfold Cirbuf.enlarge
    dsimp only
    rw [hsize, hgrow, rehash_eq_some _ _ hinj]
    constructor
    · rintro (⟨i, -, hi, hidx⟩ | ⟨hval, -⟩)
      · exact .inl ⟨⟨i, hi⟩, hidx⟩
      · by_cases hx : x = index (2 ^ m) (key val)
        · rw [hx, Function.update_self] at hval
          exact .inr ⟨(Option.some.inj hval).symm, hx⟩
        · rw [Function.update_of_ne hx] at hval
          cases hval
    · rintro (⟨⟨i, hi⟩, hidx⟩ | ⟨rfl, rfl⟩)
      · refine .inl ⟨i, ?_, hi, hidx⟩
        rw [h.slot hi, hsize]
        exact Cirbuf.index_lt hn _
      · exact .inr ⟨Function.update_self .., fun i _ u hu => hold ⟨i, hu⟩⟩
  have hsize' : (c.enlarge key val v).size = 2 ^ m := by
    unfold Cirbuf.enlarge
    dsimp only
    rw [hsize, hgrow]
  refine ⟨⟨⟨m, hm, hsize'⟩, fun {i w} hi => ?_⟩, fun w => ⟨?_, ?_⟩⟩
  · rw [hsize']
    rcases (hvalues i w).mp hi with ⟨-, hidx⟩ | ⟨rfl, hidx⟩
    · exact hidx.symm
    · exact hidx
  · rintro ⟨i, hi⟩
    rcases (hvalues i w).mp hi with ⟨hw, -⟩ | ⟨rfl, -⟩
    · exact .inr ⟨hw, fun hk => hold hw (by rw [hk])⟩
    · exact .inl rfl
  · rintro (rfl | ⟨hw, -⟩)
    · exact ⟨_, (hvalues _ _).mpr (.inr ⟨rfl, rfl⟩)⟩
    · exact ⟨_, (hvalues _ _).mpr (.inl ⟨hw, rfl⟩)⟩

/-- `set` stores the value under its key and leaves the other keys alone, if
no two keys differ in their top bit alone. -/
theorem set (h : WF key c) (val : ℕ)
    (hlow : ∀ v, c.Stored v → key v ≠ key val →
      (key v).toNat % 2 ^ 31 ≠ (key val).toNat % 2 ^ 31) :
    WF key (c.set key val) ∧ ∀ v, (c.set key val).Stored v ↔
      v = val ∨ c.Stored v ∧ key v ≠ key val := by
  unfold Cirbuf.set
  dsimp only
  split
  · next hnone => exact h.put fun v hv => by rw [hnone] at hv; cases hv
  · next v hv =>
    split
    · next hk =>
      refine h.put fun u hu => ?_
      rw [hv] at hu
      rw [← Option.some.inj hu]
      exact hk
    · next hk => exact h.enlarge hv (hlow v ⟨_, hv⟩ hk)

end WF

end Cirbuf
