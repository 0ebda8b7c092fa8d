/-
# Reassembly

The receiver passes every packet of the peer to `on_read` once and in order.
The blocks of the SACK tree are the maximal runs (`Runs`) of the packets that
were received beyond the first one missing; positions are counted from the
initial ack, and are less than half the sequence space above what was taken,
so that the comparisons of `udx_sack_tree_find` are those of positions.

Key definitions: `heldBlock`, `receive`, `Receives`, `Reassembled`.
Key theorems: `sackTreeHold_held`, `processDataPacket_takes`,
`processReadQueue_whole`, `Receives.reassembled`.
-/
import Udx.Unread
import Udx.Runs
import Mathlib.Data.List.Basic

namespace Udx

open Serial

/-! ### The held packets as runs -/

/-- The block that holds a run of the peer's packets, counted from `base`. -/
def heldBlock (base : SeqNo) (r : Run OooBuf) : SackBlock :=
  ⟨nth base r.start, nth base r.stop, r.items⟩

/-- The runs end in the half of the sequence space that starts at `n`. -/
def Near (n : ℕ) (rs : List (Run OooBuf)) : Prop := ∀ r ∈ rs, r.stop ≤ n + 2 ^ 31 + 1

theorem Near.tail {n : ℕ} {r : Run OooBuf} {rs : List (Run OooBuf)} (h : Near n (r :: rs)) : Near n rs :=
  fun x hx => h x (List.mem_cons_of_mem _ hx)

theorem Near.mono {n m : ℕ} {rs : List (Run OooBuf)} (h : Near n rs) (hnm : n ≤ m) : Near m rs :=
  fun r hr => Nat.le_trans (h r hr) (by omega)

section

variable (base : SeqNo) {n i : ℕ} {r : Run OooBuf}

theorem heldBlock_before (h1 : n < r.start) (hpos : r.start < r.stop) (h2 : r.stop ≤ n + 2 ^ 31 + 1)
    (hn : n ≤ i) (hi : i ≤ n + 2 ^ 31) :
    seqDiff (nth base i) (heldBlock base r).start < 0 ↔ i < r.start := by
  show seqDiff (nth base i) (nth base r.start) < 0 ↔ i < r.start
  rw [seqDiff_nth base (by omega) (by omega)]
  omega

theorem heldBlock_after (h1 : n < r.start) (h2 : r.stop ≤ n + 2 ^ 31 + 1)
    (hstart : r.start ≤ i) (hpos : r.start < r.stop) (hi : i ≤ n + 2 ^ 31) :
    seqDiff (nth base i) (heldBlock base r).stop > 0 ↔ r.stop < i := by
  show seqDiff (nth base i) (nth base r.stop) > 0 ↔ r.stop < i
  rw [seqDiff_nth base (by omega) (by omega)]
  omega

end

/-- A packet that joins a block, and maybe closes the gap to the next. -/
theorem sackMergeNext_held (base : SeqNo) (r : Run OooBuf) (rs : List (Run OooBuf)) {n : ℕ}
    (hr : n ≤ r.stop ∧ r.stop ≤ n + 2 ^ 31 + 1) (hrs : ∀ x ∈ rs, n ≤ x.start ∧ x.start ≤ n + 2 ^ 31 + 1) :
    sackMergeNext (heldBlock base r) (rs.map (heldBlock base)) =
      (Runs.join r rs).map (heldBlock base) := by
  cases rs with
  | nil => rfl
  | cons x rs =>
    have hx := hrs x List.mem_cons_self
    have hiff : (heldBlock base x).start = (heldBlock base r).stop ↔ x.start = r.stop :=
      ⟨fun h => nth_inj (by omega) (by omega) h, fun h => congrArg (nth base) h⟩
    simp only [List.map_cons, sackMergeNext, Runs.join]
    by_cases hjoin : x.start = r.stop
    · rw [if_pos (hiff.mpr hjoin), if_pos hjoin, List.map_cons]
      congr 1
      simp only [heldBlock, Run.stop, List.length_append, SackBlock.mk.injEq, true_and, and_true]
      rw [hjoin]
      unfold Run.stop
      rw [Nat.add_assoc]
    · rw [if_neg (fun h => hjoin (hiff.mp h)), if_neg hjoin]
      rfl

/-- The block that starts where the packet goes takes it. -/
theorem sackAppend_head (base : SeqNo) (r : Run OooBuf) (rs : List (Run OooBuf)) (a : OooBuf) {n : ℕ}
    (hr : n ≤ r.stop ∧ r.stop ≤ n + 2 ^ 31) (hrs : ∀ x ∈ rs, n ≤ x.start ∧ x.start ≤ n + 2 ^ 31 + 1) :
    sackAppend (nth base r.start) a (heldBlock base r :: rs.map (heldBlock base)) =
      (Runs.join ⟨r.start, r.items ++ [a]⟩ rs).map (heldBlock base) := by
  have hstop : (⟨r.start, r.items ++ [a]⟩ : Run OooBuf).stop = r.stop + 1 := by
    simp [Run.stop, Nat.add_assoc]
  rw [← sackMergeNext_held base ⟨r.start, r.items ++ [a]⟩ rs (n := n) (by rw [hstop]; omega) hrs]
  have hblock : heldBlock base ⟨r.start, r.items ++ [a]⟩ =
      { heldBlock base r with
        stop := (heldBlock base r).stop + 1, packetQueue := (heldBlock base r).packetQueue ++ [a] } := by
    unfold heldBlock
    rw [hstop, nth_succ]
  rw [hblock, sackAppend]
  exact if_pos rfl

/-- A block that starts elsewhere is passed over. -/
theorem sackAppend_tail (base : SeqNo) (r : Run OooBuf) (l : List SackBlock) (a : OooBuf) {m n : ℕ}
    (hr : n ≤ r.start ∧ r.start ≤ n + 2 ^ 31 + 1) (hm : n ≤ m ∧ m ≤ n + 2 ^ 31 + 1) (hne : r.start ≠ m) :
    sackAppend (nth base m) a (heldBlock base r :: l) = heldBlock base r :: sackAppend (nth base m) a l := by
  rw [sackAppend]
  refine if_neg fun h => hne ?_
  exact nth_inj (by omega) (by omega) h

/-- The starts of runs above `n` that end near it. -/
theorem Near.starts {n lo : ℕ} {rs : List (Run OooBuf)} (h : Near n rs) (ho : Runs.Ordered lo rs)
    (hlo : n ≤ lo) : ∀ x ∈ rs, n ≤ x.start ∧ x.start ≤ n + 2 ^ 31 + 1 := by
  intro x hx
  have hstart := ho.le_start hx
  have hstop := h x hx
  unfold Run.stop at hstop
  omega

/-- No block is found for a packet before all of them. -/
theorem sackTreeFind_before {base : SeqNo} {n lo i : ℕ} {rs : List (Run OooBuf)}
    (hn : n ≤ i) (hi : i ≤ n + 2 ^ 31) (hlo : n < lo) (ho : Runs.Ordered lo rs) (hnear : Near n rs)
    (hlt : i < lo) : sackTreeFind (rs.map (heldBlock base)) (nth base i) = none := by
  unfold sackTreeFind
  rw [List.find?_eq_none]
  intro b hb
  obtain ⟨r, hr, rfl⟩ := List.mem_map.mp hb
  have hstart := ho.le_start hr
  have hpos := ho.lt_stop hr
  have hbefore := (heldBlock_before base (Nat.lt_of_lt_of_le hlo hstart) hpos
    (hnear r hr) hn hi).mpr (Nat.lt_of_lt_of_le hlt hstart)
  simp [hbefore]

/-- A packet past the first block is held among the others. -/
theorem sackTreeHold_tail {base : SeqNo} {n i : ℕ} {r : Run OooBuf} {rs : List (Run OooBuf)} (a : OooBuf)
    (hn : n ≤ i) (hi : i ≤ n + 2 ^ 31) (hlo : n < r.start) (hpos : r.start < r.stop)
    (ho : Runs.Ordered (r.stop + 1) rs) (hnear : Near n (r :: rs)) (hlt : r.stop < i) :
    sackTreeHold (heldBlock base r :: rs.map (heldBlock base)) (nth base i) a =
      (sackTreeHold (rs.map (heldBlock base)) (nth base i) a).map (heldBlock base r :: ·) := by
  have hr := hnear r List.mem_cons_self
  have hafter := (heldBlock_after base hlo hr (by omega) hpos hi).mpr hlt
  have hbefore : ¬ seqDiff (nth base i) (heldBlock base r).start < 0 := fun h =>
    absurd ((heldBlock_before base hlo hpos hr hn hi).mp h) (by omega)
  have hfind : sackTreeFind (heldBlock base r :: rs.map (heldBlock base)) (nth base i) =
      sackTreeFind (rs.map (heldBlock base)) (nth base i) := by
    unfold sackTreeFind
    exact List.find?_cons_of_neg (by simp [hafter])
  have hstarts := hnear.tail.starts ho (by omega)
  have hpass : ∀ {m : ℕ}, r.start < m → m ≤ n + 2 ^ 31 + 1 → ∀ l : List SackBlock,
      sackAppend (nth base m) a (heldBlock base r :: l) = heldBlock base r :: sackAppend (nth base m) a l :=
    fun hm hm' l => sackAppend_tail base r l a (n := n) ⟨by omega, by omega⟩ ⟨by omega, hm'⟩ (by omega)
  unfold sackTreeHold
  rw [hfind]
  cases hb : sackTreeFind (rs.map (heldBlock base)) (nth base i) with
  | none =>
    have hinsert : sackTreeInsert ⟨nth base i, nth base i, []⟩
        (heldBlock base r :: rs.map (heldBlock base)) = heldBlock base r ::
          sackTreeInsert ⟨nth base i, nth base i, []⟩ (rs.map (heldBlock base)) := if_neg hbefore
    dsimp only [Option.map_some]
    rw [hinsert, hpass (by omega) (by omega)]
  | some b =>
    obtain ⟨x, hx, rfl⟩ := List.mem_map.mp (List.mem_of_find?_eq_some hb)
    have hstart := ho.le_start hx
    dsimp only
    split
    · rfl
    · exact congrArg some (hpass (m := x.start) (by omega) (hstarts x hx).2 _)

/-- Holding a packet is putting it at its place among the runs, where that is
free. -/
theorem sackTreeHold_held (base : SeqNo) {n lo i : ℕ} {rs : List (Run OooBuf)} (a : OooBuf)
    (hn : n ≤ i) (hi : i ≤ n + 2 ^ 31) (hlo : n < lo) (ho : Runs.Ordered lo rs) (hnear : Near n rs) :
    sackTreeHold (rs.map (heldBlock base)) (nth base i) a =
      if (Runs.get rs i).isSome then none else some ((Runs.insert i a rs).map (heldBlock base)) := by
  have hnew : ∀ (lo' : ℕ) {l : List (Run OooBuf)}, n < lo' → Runs.Ordered lo' l → Near n l → i < lo' →
      sackTreeHold (l.map (heldBlock base)) (nth base i) a =
        some ((Runs.join ⟨i, [a]⟩ l).map (heldBlock base)) := by
    intro lo' l hlo' ho' hnear' hlt
    have hempty : heldBlock base ⟨i, []⟩ = ⟨nth base i, nth base i, []⟩ := rfl
    have hinsert : sackTreeInsert ⟨nth base i, nth base i, []⟩ (l.map (heldBlock base)) =
        ⟨nth base i, nth base i, []⟩ :: l.map (heldBlock base) := by
      cases l with
      | nil => rfl
      | cons r l =>
        have hpos := ho'.start_lt_stop
        have hbefore := (heldBlock_before base (Nat.lt_of_lt_of_le hlo' ho'.1) hpos
          (hnear' r List.mem_cons_self) hn hi).mpr (Nat.lt_of_lt_of_le hlt ho'.1)
        exact if_pos hbefore
    unfold sackTreeHold
    rw [sackTreeFind_before hn hi hlo' ho' hnear' hlt]
    dsimp only
    rw [hinsert, ← hempty]
    have hstop : (⟨i, []⟩ : Run OooBuf).stop = i := rfl
    exact congrArg some (sackAppend_head base ⟨i, []⟩ l a (n := n)
      ⟨by rw [hstop]; exact hn, by rw [hstop]; exact hi⟩ (hnear'.starts ho' (by omega)))
  induction rs generalizing lo with
  | nil => exact hnew (i + 1) (by omega) trivial hnear (by omega)
  | cons r rs ih =>
    have hpos := ho.start_lt_stop
    have hstart : n < r.start := Nat.lt_of_lt_of_le hlo ho.1
    have hr := hnear r List.mem_cons_self
    unfold Runs.get Runs.insert
    by_cases h1 : i < r.start
    · rw [if_pos h1, if_pos h1]
      have hord : Runs.Ordered r.start (r :: rs) := ⟨Nat.le_refl _, ho.2⟩
      exact hnew r.start hstart hord hnear h1
    rw [if_neg h1, if_neg h1]
    have hbefore : ¬ seqDiff (nth base i) (heldBlock base r).start < 0 := fun h =>
      h1 ((heldBlock_before base hstart hpos hr hn hi).mp h)
    have hfind : i ≤ r.stop →
        sackTreeFind (heldBlock base r :: rs.map (heldBlock base)) (nth base i) = some (heldBlock base r) := by
      intro hle
      have hafter : ¬ seqDiff (nth base i) (heldBlock base r).stop > 0 := fun h =>
        absurd ((heldBlock_after base hstart hr (Nat.not_lt.mp h1) hpos hi).mp h) (by omega)
      unfold sackTreeFind
      exact List.find?_cons_of_pos (by simp only [hbefore, hafter, not_false_eq_true, decide_true, Bool.and_self])
    by_cases h2 : i < r.stop
    · -- the packet is held already
      rw [if_pos h2, if_pos h2]
      have hmem : (r.items[i - r.start]?).isSome = true := by
        unfold Run.stop at h2
        rw [List.getElem?_eq_getElem (by omega)]
        rfl
      rw [if_pos hmem, List.map_cons]
      unfold sackTreeHold
      rw [hfind (by omega)]
      refine if_pos fun h => ?_
      have : r.stop = i := nth_inj (s := base) (by omega) (by omega) h
      omega
    rw [if_neg h2, if_neg h2]
    by_cases h3 : i = r.stop
    · -- it extends the block
      subst h3
      rw [if_pos rfl, Runs.get_lt ho.2.2 (by omega), List.map_cons]
      unfold sackTreeHold
      rw [hfind (Nat.le_refl _)]
      refine (if_neg fun h : (heldBlock base r).stop ≠ nth base r.stop => h rfl).trans ?_
      exact congrArg some (sackAppend_head base r rs a (n := n) ⟨hn, hi⟩ (hnear.tail.starts ho.2.2 (by omega)))
    · rw [if_neg h3, List.map_cons, sackTreeHold_tail a hn hi hstart hpos ho.2.2 hnear (by omega),
        ih (by omega) ho.2.2 hnear.tail]
      split <;> rfl

/-! ### What was received -/

/-- What a packet gives to `on_read`. -/
def OooBuf.payload (b : OooBuf) : Option (List UInt8) :=
  if hasFlag b.type UDX_HEADER_DATA then some b.data else none

/-- What a stream took is what it received, in order. -/
structure Takes (base : SeqNo) (got : ℕ → Option OooBuf) (s : Stream) : Prop where
  ack : s.rx.ack = nth base s.rx.taken
  below : ∀ i < s.rx.taken, (got i).isSome
  reads : s.reads = (List.range s.rx.taken).filterMap fun i => (got i).bind OooBuf.payload

/-- What a stream holds is what it received from `lo` on. -/
def Held (base : SeqNo) (got : ℕ → Option OooBuf) (lo : ℕ) (s : Stream) : Prop :=
  ∃ rs : List (Run OooBuf), Runs.Ordered lo rs ∧ Near s.rx.taken rs ∧
    s.rx.sackTree = rs.map (heldBlock base) ∧ ∀ i, s.rx.taken ≤ i → Runs.get rs i = got i

section

variable {base : SeqNo} {got : ℕ → Option OooBuf} {lo : ℕ} {s t : Stream}

theorem Unread.takes (h : Unread s t) (hs : Takes base got s) : Takes base got t := by
  refine ⟨?_, ?_, ?_⟩
  · rw [h.ack, h.taken]
    exact hs.ack
  · rw [h.taken]
    exact hs.below
  · rw [h.reads, h.taken]
    exact hs.reads

theorem Unread.held (h : Unread s t) (hlive : t.st.dead = false) (hs : Held base got lo s) :
    Held base got lo t := by
  obtain ⟨rs, hord, hnear, htree, hget⟩ := hs
  exact ⟨rs, hord, h.taken ▸ hnear, (h.sackTree hlive).trans htree, h.taken ▸ hget⟩

theorem Held.missing (hs : Held base got (s.rx.taken + 1) s) : got s.rx.taken = none := by
  obtain ⟨rs, hord, -, -, hget⟩ := hs
  rw [← hget _ (Nat.le_refl _)]
  exact Runs.get_lt hord (Nat.lt_succ_self _)

/-- The next packet is taken. -/
theorem Takes.next (hs : Takes base got s) {b : OooBuf} (hb : got s.rx.taken = some b)
    (hack : t.rx.ack = s.rx.ack + 1) (htaken : t.rx.taken = s.rx.taken + 1)
    (hreads : t.reads = s.reads ++ b.payload.toList) : Takes base got t := by
  refine ⟨?_, fun i hi => ?_, ?_⟩
  · rw [hack, htaken, nth_succ, hs.ack]
  · rw [htaken] at hi
    rcases Nat.lt_succ_iff_lt_or_eq.mp hi with hlt | rfl
    · exact hs.below i hlt
    · rw [hb]
      rfl
  · rw [hreads, htaken, hs.reads, List.range_succ, List.filterMap_append]
    congr 1
    rw [List.filterMap_cons, hb]
    cases h : b.payload <;> simp [h]

/-- A packet that was not taken yet is received. -/
theorem Takes.update (hs : Takes base got s) {i : ℕ} (hi : s.rx.taken ≤ i) (b : OooBuf) :
    Takes base (Function.update got i (some b)) s := by
  have hkeep : ∀ j < s.rx.taken, Function.update got i (some b) j = got j := fun j hj =>
    Function.update_of_ne (by omega) _ _
  refine ⟨hs.ack, fun j hj => ?_, ?_⟩
  · rw [hkeep j hj]
    exact hs.below j hj
  · rw [hs.reads]
    refine List.filterMap_congr fun j hj => ?_
    rw [hkeep j (List.mem_range.mp hj)]

end

/-! ### process_data_packet -/

/-- The place of a packet among those of the peer. -/
def placeOf (seq : SeqNo) (s : Stream) : ℕ := s.rx.taken + (seq - s.rx.ack).toNat

/-- A packet is received, if none was at its place. -/
def receivePacket (i : ℕ) (b : OooBuf) (got : ℕ → Option OooBuf) : ℕ → Option OooBuf :=
  if (got i).isSome then got else Function.update got i (some b)

theorem placeOf_spec {base : SeqNo} {got : ℕ → Option OooBuf} {seq : SeqNo} {s : Stream}
    (hs : Takes base got s) (hseq : seqCompare s.rx.ack seq ≤ 0) :
    seq = nth base (placeOf seq s) ∧ s.rx.taken ≤ placeOf seq s ∧ placeOf seq s ≤ s.rx.taken + 2 ^ 31 := by
  have hdiff := seqCompare_nonpos.mp hseq
  refine ⟨?_, Nat.le_add_right _ _, ?_⟩
  · unfold placeOf
    rw [nth_add, ← hs.ack]
    exact exists_nth _ _
  · have hle : (seq - s.rx.ack).toNat ≤ 2 ^ 31 := by
      unfold seqDiff at hdiff
      rw [BitVec.toInt_eq_toNat_cond] at hdiff
      have hx := s.rx.ack.isLt
      have hy := seq.isLt
      rw [BitVec.toNat_sub] at hdiff ⊢
      split at hdiff <;> omega
    unfold placeOf
    omega

theorem readData_reads (data : List UInt8) {s : Stream} (hread : s.handlers.onRead = true) :
    (readData Hook.quiet data s).reads = s.reads ++ [data] ∧
      (readData Hook.quiet data s).toCore = s.toCore := by
  unfold readData
  rw [if_pos hread]
  unfold Stream.invoke
  refine ⟨?_, rfl⟩
  dsimp only
  rw [Stream.reads_note, show Hook.quiet (.read data) (s.note (.callback (.read data))) =
    s.note (.callback (.read data)) from rfl, Stream.reads_note]
  simp [Entry.read?]

section

variable {base : SeqNo} {got : ℕ → Option OooBuf} {s : Stream}

theorem Held.mono {lo lo' : ℕ} (h : Held base got lo s) (hle : lo' ≤ lo) : Held base got lo' s := by
  obtain ⟨rs, hord, hrest⟩ := h
  exact ⟨rs, hord.mono hle, hrest⟩

/-- The next packet in line goes to `on_read`. -/
theorem takePacket_takes (type : UInt8) (data : List UInt8) (h : Takes base got s)
    (hheld : Held base got (s.rx.taken + 1) s) (hread : s.handlers.onRead = true)
    (hdata : hasFlag type UDX_HEADER_DATA = true) :
    let t := readData Hook.quiet data (takeNext (noteAccept type s.rx.ack data s))
    let got' := Function.update got s.rx.taken (some ⟨type, data⟩)
    Takes base got' t ∧ Held base got' t.rx.taken t := by
  intro t got'
  obtain ⟨hreads, hcore⟩ := readData_reads data
    (s := takeNext (noteAccept type s.rx.ack data s)) hread
  have hrx : t.rx = (takeNext (noteAccept type s.rx.ack data s)).rx := congrArg Core.rx hcore
  have hnote : (takeNext (noteAccept type s.rx.ack data s)).reads = s.reads := by
    have hreads := Stream.reads_note (.accept (s.rx.taken + (s.rx.ack - s.rx.ack).toNat) type data) s
    exact hreads.trans (List.append_nil _)
  have htaken : t.rx.taken = s.rx.taken + 1 := congrArg Rx.taken hrx
  refine ⟨(h.update (Nat.le_refl _) ⟨type, data⟩).next (Function.update_self ..)
    (congrArg Rx.ack hrx) htaken ?_, ?_⟩
  · rw [hreads, hnote]
    simp [OooBuf.payload, hdata]
  · obtain ⟨rs, hord, hnear, htree, hget⟩ := hheld
    refine ⟨rs, htaken ▸ hord, hnear.mono (by omega), (congrArg Rx.sackTree hrx).trans htree, fun i hi => ?_⟩
    rw [hget i (by omega)]
    exact (Function.update_of_ne (by omega) _ _).symm

/-- A packet out of line is held at its place, if it is new. -/
theorem holdPacket_takes (type : UInt8) {seq : SeqNo} (data : List UInt8) (h : Takes base got s)
    (hheld : Held base got (s.rx.taken + 1) s) (hseq : seqCompare s.rx.ack seq ≤ 0) :
    let t := holdPacket type seq data s
    let got' := receivePacket (placeOf seq s) ⟨type, data⟩ got
    Takes base got' t ∧ Held base got' t.rx.taken t ∧ t.st = s.st ∧ t.handlers = s.handlers := by
  obtain ⟨hplace, hlo, hhi⟩ := placeOf_spec h hseq
  obtain ⟨rs, hord, hnear, htree, hget⟩ := hheld
  generalize placeOf seq s = i at hplace hlo hhi
  have hhold := sackTreeHold_held base ⟨type, data⟩ hlo hhi (Nat.lt_succ_self _) hord hnear
  rw [← htree, ← hplace, hget i hlo] at hhold
  unfold holdPacket receivePacket
  rw [hhold]
  cases hi : got i with
  | some b => exact ⟨h, ⟨rs, hord.mono (Nat.le_succ _), hnear, htree, hget⟩, rfl, rfl⟩
  | none =>
    have hread : Unread s (noteAccept type seq data s) := (Unread.refl s).note rfl
    refine ⟨⟨h.ack, (h.update hlo ⟨type, data⟩).below, (hread.takes (h.update hlo ⟨type, data⟩)).reads⟩,
      ⟨Runs.insert i ⟨type, data⟩ rs, Runs.insert_ordered _ hlo (hord.mono (Nat.le_succ _)),
        Runs.insert_stop_le _ (Nat.lt_succ_of_le hhi) hnear, rfl, fun j hj => ?_⟩, rfl, rfl⟩
    by_cases hji : j = i
    · subst hji
      rw [Runs.get_insert_self hord _ ((hget j hj).trans hi)]
      exact (Function.update_self j (some (OooBuf.mk type data)) got).symm
    · rw [Runs.get_insert_of_ne i _ hji, hget j hj]
      exact (Function.update_of_ne hji _ _).symm

theorem processDataPacket_takes (type : UInt8) {seq : SeqNo} (data : List UInt8) (h : Takes base got s)
    (hheld : Held base got (s.rx.taken + 1) s) (hread : s.handlers.onRead = true)
    (hseq : seqCompare s.rx.ack seq ≤ 0) :
    let t := processDataPacket Hook.quiet type seq data s
    let got' := receivePacket (placeOf seq s) ⟨type, data⟩ got
    Takes base got' t ∧ Held base got' t.rx.taken t ∧ t.st = s.st ∧ t.handlers = s.handlers := by
  unfold processDataPacket
  split
  · next hfast =>
    obtain ⟨rfl, hdata⟩ := hfast
    obtain ⟨htakes, hheld'⟩ := takePacket_takes type data h hheld hread hdata
    have hplace : placeOf s.rx.ack s = s.rx.taken := by simp [placeOf]
    have hcore := (readData_reads data (s := takeNext (noteAccept type s.rx.ack data s)) hread).2
    have hnew : receivePacket s.rx.taken ⟨type, data⟩ got =
        Function.update got s.rx.taken (some ⟨type, data⟩) := by
      unfold receivePacket
      rw [hheld.missing]
      rfl
    dsimp only
    rw [hplace, hnew]
    exact ⟨htakes, hheld', (congrArg Core.st hcore :), (congrArg Core.handlers hcore :)⟩
  · exact holdPacket_takes type data h hheld hseq

/-! ### The read queue -/

/-- The loop over a block that has come in line takes all of it. -/
theorem drainLoop_takes {s : Stream} (bufs : List OooBuf) (h : Takes base got s) (hdead : s.st.dead = false)
    (hread : s.handlers.onRead = true) (hgot : ∀ k < bufs.length, got (s.rx.taken + k) = bufs[k]?) :
    let t := drainLoop Hook.quiet bufs s
    Takes base got t ∧ t.rx.taken = s.rx.taken + bufs.length ∧ t.rx.sackTree = s.rx.sackTree ∧
      t.st = s.st := by
  induction bufs generalizing s with
  | nil => exact ⟨h, rfl, rfl, rfl⟩
  | cons b rest ih =>
    have hb : got s.rx.taken = some b := hgot 0 (Nat.succ_pos _)
    have hrest : ∀ k < rest.length, got (s.rx.taken + 1 + k) = rest[k]? := by
      intro k hk
      rw [Nat.add_right_comm, Nat.add_assoc]
      exact hgot (k + 1) (Nat.succ_lt_succ hk)
    unfold drainLoop
    dsimp only
    by_cases hdata : hasFlag b.type UDX_HEADER_DATA = true
    · rw [if_pos hdata]
      obtain ⟨hreads, hcore⟩ := readData_reads b.data (s := takeNext (setDraining rest s)) hread
      generalize readData Hook.quiet b.data (takeNext (setDraining rest s)) = t at hreads hcore ⊢
      have hrx : t.rx = (takeNext (setDraining rest s)).rx := congrArg Core.rx hcore
      have hst : t.st = s.st := (congrArg Core.st hcore :)
      have htaken : t.rx.taken = s.rx.taken + 1 := congrArg Rx.taken hrx
      have hnext : Takes base got t := h.next hb (congrArg Rx.ack hrx) htaken (by
        rw [hreads, show (takeNext (setDraining rest s)).reads = s.reads from rfl]
        simp [OooBuf.payload, hdata])
      rw [hst, if_neg (by simp [hdead])]
      obtain ⟨h1, h2, h3, h4⟩ := ih hnext (hst ▸ hdead) ((congrArg (fun c => c.handlers.onRead) hcore).trans hread)
        (htaken ▸ hrest)
      refine ⟨h1, ?_, h3.trans (congrArg Rx.sackTree hrx :), h4.trans hst⟩
      rw [h2, htaken, List.length_cons]
      omega
    · rw [if_neg hdata]
      have hnext : Takes base got (takeNext (setDraining rest s)) := h.next hb rfl rfl (by
        rw [show (takeNext (setDraining rest s)).reads = s.reads from rfl]
        simp [OooBuf.payload, hdata])
      obtain ⟨h1, h2, h3, h4⟩ := ih (s := takeNext (setDraining rest s)) hnext hdead hread hrest
      refine ⟨h1, ?_, h3, h4⟩
      rw [h2, List.length_cons]
      show s.rx.taken + 1 + rest.length = _
      omega

/-- What an event leaves: all that came in line is taken. -/
def Whole (base : SeqNo) (got : ℕ → Option OooBuf) (s : Stream) : Prop :=
  Takes base got s ∧ (s.st.dead = false → Held base got (s.rx.taken + 1) s)

theorem Unread.whole {t : Stream} (h : Unread s t) (hs : Takes base got s)
    (hheld : s.st.dead = false → Held base got (s.rx.taken + 1) s) : Whole base got t := by
  refine ⟨h.takes hs, fun hlive => ?_⟩
  have hsource : s.st.dead = false := by
    cases hd : s.st.dead
    · rfl
    · rw [h.dead hd] at hlive
      cases hlive
  rw [h.taken]
  exact h.held hlive (hheld hsource)

/-- A datagram whose payload was looked at. -/
structure Looking (env : Env) (base : SeqNo) (got : ℕ → Option OooBuf) (p : RxPacket) (s : Stream) : Prop where
  takes : Takes base got s
  held : Held base got s.rx.taken s
  line : s.st.shouldRead = false → Held base got (s.rx.taken + 1) s
  carries : Carries p s
  live : s.st.dead = false
  read : s.handlers.onRead = true
  unprocessed : s.ctl.processing = false
  drained : s.ctl.draining = []

theorem processReadQueue_whole {env : Env} {p : RxPacket} (h : Looking env base got p s) :
    Whole base got (processReadQueue env Hook.quiet p s) := by
  have hack : ∀ {t : Stream}, Carries p t → t.st.dead = false → t.ctl.processing = false →
      t.ctl.draining = [] → Takes base got t → Held base got (t.rx.taken + 1) t →
      Whole base got (processAck env Hook.quiet p t) := fun hc hlive hproc hdrain ht hheld =>
    (processAck_path (quiet_tame env) hc hlive hproc hdrain).1.unread.whole ht fun _ => hheld
  obtain ⟨rs, hord, hnear, htree, hget⟩ := h.held
  unfold processReadQueue
  split
  · next hnil =>
    obtain rfl : rs = [] := List.map_eq_nil_iff.mp (htree.symm.trans hnil)
    exact hack h.carries h.live h.unprocessed h.drained h.takes ⟨[], trivial, hnear, htree, hget⟩
  next block rest hcons =>
  cases rs with
  | nil => cases hcons.symm.trans htree
  | cons r rs =>
    obtain ⟨rfl, rfl⟩ := List.cons.inj (hcons.symm.trans htree)
    have hstop := hnear r List.mem_cons_self
    have hpos := hord.start_lt_stop
    have hlo := hord.1
    split
    · next hline =>
      have hstart : r.start = s.rx.taken := by
        refine nth_inj (s := base) (by omega) (by omega) ?_
        rw [← h.takes.ack]
        exact hline.2
      obtain ⟨hpath, hc, hset⟩ := drainLoop_path (quiet_tame env) (heldBlock base r).packetQueue
        (s := setDraining (heldBlock base r).packetQueue (setSackTree (rs.map (heldBlock base)) s))
        (h.carries.of_rx rfl rfl rfl) h.live h.unprocessed rfl
      have htakes : Takes base got (setDraining (heldBlock base r).packetQueue
          (setSackTree (rs.map (heldBlock base)) s)) := ⟨h.takes.ack, h.takes.below, h.takes.reads⟩
      obtain ⟨h1, h2, h3, h4⟩ := drainLoop_takes (heldBlock base r).packetQueue htakes h.live h.read (by
        intro k hk
        show got (s.rx.taken + k) = r.items[k]?
        rw [← hget _ (Nat.le_add_right _ _), ← hstart]
        exact Runs.get_head hk)
      dsimp only at h1 h2 h3 h4 ⊢
      generalize drainLoop Hook.quiet (heldBlock base r).packetQueue (setDraining (heldBlock base r).packetQueue
        (setSackTree (rs.map (heldBlock base)) s)) = t at hc hset h1 h2 h3 h4 ⊢
      have hlive : t.st.dead = false := (congrArg Status.dead h4).trans h.live
      have htaken : t.rx.taken = r.stop := by
        rw [h2, Run.stop, hstart]
        rfl
      rw [if_neg (by simp [hlive])]
      obtain ⟨hdrain, hproc⟩ := hset.resolve_left (by simp [hlive])
      refine hack hc hlive hproc hdrain h1 ⟨rs, htaken ▸ hord.2.2, hnear.tail.mono (by omega), h3, fun i hi => ?_⟩
      rw [← hget i (by omega)]
      exact (Runs.get_tail (by omega)).symm
    · next hline =>
      refine hack h.carries h.live h.unprocessed h.drained h.takes ?_
      cases hshould : s.st.shouldRead
      · exact h.line hshould
      · have hne : r.start ≠ s.rx.taken := fun he => hline ⟨hshould, by rw [h.takes.ack, ← he]; rfl⟩
        exact ⟨r :: rs, ⟨by omega, hord.2⟩, hnear, htree, hget⟩

/-- A step beside the datagram's payload keeps what is known of it. -/
theorem Looking.still {env : Env} {p : RxPacket} {t : Stream} (h : Looking env base got p s)
    (hu : Unread s t) (hc : Carries p t) (hst : t.st.dead = false ∧ t.st.shouldRead = s.st.shouldRead)
    (hread : t.handlers.onRead = s.handlers.onRead) (hproc : t.ctl.processing = s.ctl.processing)
    (hdrain : t.ctl.draining = s.ctl.draining) : Looking env base got p t := by
  refine ⟨hu.takes h.takes, ?_, fun hs => ?_, hc, hst.1, hread.trans h.read, hproc.trans h.unprocessed,
    hdrain.trans h.drained⟩
  · rw [hu.taken]
    exact hu.held hst.1 h.held
  · rw [hu.taken]
    exact hu.held hst.1 (h.line (hst.2 ▸ hs))

theorem processMessage_whole {env : Env} {p : RxPacket} (h : Looking env base got p s) :
    Whole base got (processMessage env Hook.quiet p s) := by
  unfold processMessage
  split
  · have hstill : Looking env base got p (s.invoke Hook.quiet (.recv p.data)) :=
      h.still (invoke_unread rfl s) (h.carries.of_rx rfl rfl rfl) ⟨h.live, rfl⟩ rfl rfl rfl
    dsimp only
    rw [if_neg (by simp [hstill.live])]
    exact processReadQueue_whole hstill
  · exact processReadQueue_whole h

theorem processEndBits_whole {env : Env} {p : RxPacket} (h : Looking env base got p s) :
    Whole base got (processEndBits env Hook.quiet p s) := by
  have hrest : ∀ {x : Stream}, Looking env base got p x → Whole base got
      (if hasFlag p.h.type UDX_HEADER_DESTROY = true then closeStream env Hook.quiet .connReset x
        else processMessage env Hook.quiet p x) := by
    intro x hx
    split
    · have hclose := (closeStream_path (quiet_tame env) .connReset x (.inr (.inr (by simp)))).unread
      have hdead := closeStream_dead (quiet_tame env) .connReset x
      exact ⟨hclose.takes hx.takes, fun hlive => by simp [hdead] at hlive⟩
    · exact processMessage_whole hx
  unfold processEndBits
  dsimp only
  by_cases hend : hasFlag p.h.type UDX_HEADER_END = true
  · rw [if_pos hend]
    exact hrest (h.still ((Unread.refl s).still id rfl rfl) (h.carries.of_rx rfl rfl rfl) ⟨h.live, rfl⟩ rfl rfl rfl)
  · rw [if_neg hend]
    exact hrest h

/-- A packet of the peer, for the read queue of a stream that still reads. -/
def receiveData (type : UInt8) (seq : SeqNo) (data : List UInt8) (s : Stream)
    (got : ℕ → Option OooBuf) : ℕ → Option OooBuf :=
  if seqCompare s.rx.ack seq ≤ 0 ∧ hasFlag type UDX_HEADER_DATA_OR_END = true ∧ s.st.shouldRead = true then
    receivePacket (placeOf seq s) ⟨type, data⟩ got
  else got

theorem processPayload_whole {env : Env} {p : RxPacket} (h : Looking env base got p s)
    (hline : Held base got (s.rx.taken + 1) s) :
    Whole base (receiveData p.h.type p.h.seq p.data s got) (processPayload env Hook.quiet p s) := by
  unfold processPayload receiveData
  by_cases hseq : seqCompare s.rx.ack p.h.seq ≤ 0
  · rw [if_pos hseq]
    by_cases htake : (hasFlag p.h.type UDX_HEADER_DATA_OR_END && s.st.shouldRead) = true
    · obtain ⟨htype, hshould⟩ := Bool.and_eq_true_iff.mp htake
      have hopen : s.st.endedRemote = false := by
        cases he : s.st.endedRemote
        · rfl
        · simp [Status.shouldRead, he] at hshould
      rw [if_pos htake, if_pos ⟨hseq, htype, hshould⟩]
      obtain ⟨htakes, hheld, hst, hhandlers⟩ := processDataPacket_takes p.h.type p.data h.takes hline h.read hseq
      obtain ⟨-, hc, hproc, hdrain, -⟩ := processDataPacket_path (quiet_tame env) h.carries h.live
        h.unprocessed h.drained hopen hseq htype
      generalize processDataPacket Hook.quiet p.h.type p.h.seq p.data s = t
        at htakes hheld hst hhandlers hc hproc hdrain ⊢
      have hlive : t.st.dead = false := (congrArg Status.dead hst).trans h.live
      dsimp only
      rw [if_neg (by simp [hlive])]
      refine processEndBits_whole ⟨htakes, hheld, fun hno => ?_, hc, hlive, ?_, hproc, hdrain⟩
      · rw [hst, hshould] at hno
        cases hno
      · rw [hhandlers]
        exact h.read
    · rw [if_neg htake, if_neg fun hc => htake (Bool.and_eq_true_iff.mpr hc.2)]
      exact processEndBits_whole h
  · rw [if_neg hseq, if_neg fun hc => hseq hc.1]
    exact processMessage_whole h

/-! ### Datagrams -/

/-- A datagram that passed the firewall brings its payload, unless it goes to a
relay. -/
def receiveHeader (h : Header) (d : List UInt8) (s : Stream) (got : ℕ → Option OooBuf) :
    ℕ → Option OooBuf :=
  if s.peer.relayTo then got
  else if hasFlag h.type UDX_HEADER_HEARTBEAT then got
  else
    match payload h d with
    | none => got
    | some data => receiveData h.type h.seq data s got

/-- The packets of the peer that were received, after a datagram. -/
def receive (env : Env) (d : List UInt8) (same : Bool) (s : Stream) (got : ℕ → Option OooBuf) :
    ℕ → Option OooBuf :=
  match parse d with
  | none => got
  | some h =>
    if h.remoteId ≠ s.peer.localId then got
    else if s.st.dead then got
    else if !same && s.handlers.onFirewall && env.firewall s.io.calls then got
    else receiveHeader h d s got

theorem receiveData_congr {t : Stream} (hrx : t.rx = s.rx) (hst : t.st = s.st) (type : UInt8) (seq : SeqNo)
    (data : List UInt8) : receiveData type seq data t got = receiveData type seq data s got := by
  unfold receiveData placeOf
  rw [hrx, hst]

theorem receiveHeader_congr {t : Stream} (hrx : t.rx = s.rx) (hst : t.st = s.st) (hpeer : t.peer = s.peer)
    (h : Header) (d : List UInt8) : receiveHeader h d t got = receiveHeader h d s got := by
  unfold receiveHeader
  rw [hpeer]
  simp only [receiveData_congr hrx hst]

theorem processHeader_whole (env : Env) {h : Header} {d : List UInt8} (hs : AtRest s)
    (hlive : s.st.dead = false) (hread : s.handlers.onRead = true) (hw : Whole base got s) :
    Whole base (receiveHeader h d s got) (processHeader env Hook.quiet h d s) := by
  obtain ⟨htakes, hheld⟩ := hw
  unfold processHeader receiveHeader
  by_cases hrelay : s.peer.relayTo = true
  · rw [if_pos hrelay, if_pos hrelay]
    have hseq : Unread s (relaySeq h.seq s) :=
      ((Unread.refl s).note (e := .reached (.relay h.seq) s.toCore) rfl).still id rfl rfl
    unfold relayPacket
    dsimp only
    split
    · exact (hseq.trans (closeStream_path (quiet_tame env) .connReset _ (.inr (.inr (by simp)))).unread).whole
        htakes hheld
    · exact hseq.whole htakes hheld
  rw [if_neg hrelay, if_neg hrelay]
  by_cases hbeat : hasFlag h.type UDX_HEADER_HEARTBEAT = true
  · rw [if_pos hbeat, if_pos hbeat]
    exact (sendAck_path (quiet_tame env) s).unread.whole htakes hheld
  rw [if_neg hbeat, if_neg hbeat]
  cases payload h d with
  | none => exact ⟨htakes, hheld⟩
  | some data =>
    have hline := hheld hlive
    have hlook : Looking env base got (rxPacket h d data s) (setPacket (rxPacket h d data s) s) :=
      ⟨⟨htakes.ack, htakes.below, htakes.reads⟩, hline.mono (Nat.le_succ _), fun _ => hline,
        ⟨rfl, rfl, rfl, rfl, hs.cursor, hs.unacking⟩, hlive, hread, hs.processing, hs.draining⟩
    have hdata := processPayload_whole hlook hline
    rw [receiveData_congr (t := setPacket (rxPacket h d data s) s) (s := s) rfl rfl] at hdata
    exact hdata

theorem processPacket_whole (env : Env) (d : List UInt8) (same : Bool) (hs : AtRest s)
    (hread : s.handlers.onRead = true) (hw : Whole base got s) :
    Whole base (receive env d same s got) (processPacket env Hook.quiet d same s) := by
  unfold processPacket receive
  cases parse d with
  | none => exact hw
  | some h =>
    dsimp only
    by_cases hid : h.remoteId ≠ s.peer.localId
    · rw [if_pos hid, if_pos hid]
      exact hw
    rw [if_neg hid, if_neg hid]
    by_cases hclosed : s.st.closed = true
    · have hdead : s.st.dead = true := (congrArg (s.st.destroying || ·) hclosed).trans (Bool.or_true _)
      rw [if_pos hclosed, if_pos hdead]
      exact (processTimewait_unread env h.type s).whole hw.1 hw.2
    rw [if_neg hclosed]
    by_cases hdead : s.st.dead = true
    · rw [if_pos hdead, if_pos hdead]
      exact hw
    rw [if_neg hdead, if_neg hdead]
    have hlive : s.st.dead = false := Bool.eq_false_iff.mpr hdead
    by_cases hask : (!same && s.handlers.onFirewall) = true
    · have hasked : Unread s (s.invoke Hook.quiet .firewall).asked := (invoke_unread rfl s).still id rfl rfl
      have hw' := hasked.whole hw.1 hw.2
      have hlive' : (s.invoke Hook.quiet .firewall).asked.st.dead = false := hlive
      rw [if_pos hask, hask, Bool.true_and, hlive', Bool.or_false]
      by_cases hrefuse : env.firewall s.io.calls = true
      · rw [if_pos hrefuse, if_pos hrefuse]
        exact hw'
      · rw [if_neg hrefuse, if_neg hrefuse]
        have hrest : AtRest (s.invoke Hook.quiet .firewall).asked :=
          ⟨hs.cursor, hs.unacking, hs.draining, hs.processing, hs.packet⟩
        have hpass := processHeader_whole env (h := h) (d := d) hrest hlive' hread hw'
        rw [receiveHeader_congr (t := (s.invoke Hook.quiet .firewall).asked) (s := s) rfl rfl rfl] at hpass
        exact hpass
    · rw [if_neg hask, Bool.eq_false_iff.mpr hask, Bool.false_and, if_neg Bool.false_ne_true]
      exact processHeader_whole env hs hlive hread hw

end

/-! ### Runs -/

/-- A run whose callbacks do not call back, and what the peer's packets are in
it: a datagram finds `on_read` set. -/
inductive Receives (env : Env) (cfg : Config) : Stream → (ℕ → Option OooBuf) → Prop
  | init : Receives env cfg (Udx.init env cfg) fun _ => none
  | recv {s got} (d : List UInt8) (same : Bool) : Receives env cfg s got → s.handlers.onRead = true →
    Receives env cfg (step env Hook.quiet (.recv d same) s) (receive env d same s got)
  | other {s got} (e : Event) : Receives env cfg s got → (∀ d same, e ≠ .recv d same) →
    Receives env cfg (step env Hook.quiet e s) got

variable {env : Env} {cfg : Config} {s : Stream} {got : ℕ → Option OooBuf}

theorem Receives.reach (h : Receives env cfg s got) : Reach env cfg s := by
  induction h with
  | init => exact .init
  | recv d same _ _ ih => exact .step _ ih .quiet
  | other e _ _ ih => exact .step e ih .quiet

theorem Receives.whole (h : Receives env cfg s got) : Whole cfg.ack got s := by
  induction h with
  | init =>
    have hrx : (Udx.init env cfg).rx = { ack := cfg.ack } := rfl
    refine ⟨⟨?_, ?_, ?_⟩, fun _ => ⟨[], trivial, by simp [Near], by rw [hrx]; rfl, fun _ _ => rfl⟩⟩
    · rw [hrx]
      exact (nth_zero _).symm
    · rw [hrx]
      exact fun i hi => absurd hi (Nat.not_lt_zero i)
    · rw [hrx]
      rfl
  | @recv s got d same hrun hread ih =>
    have hbegin : Unread s (beginEvent (.recv d same) s) := (Unread.refl s).note rfl
    have hrest : AtRest (beginEvent (.recv d same) s) := .of_idle hrun.reach.idle
    have hpacket := processPacket_whole env d same hrest hread (hbegin.whole ih.1 ih.2)
    have hgot : receive env d same (beginEvent (.recv d same) s) got = receive env d same s got := rfl
    rw [hgot] at hpacket
    unfold step
    rw [show runEvent env Hook.quiet (.recv d same) (beginEvent (.recv d same) s) =
      processPacket env Hook.quiet d same (beginEvent (.recv d same) s) from rfl]
    generalize processPacket env Hook.quiet d same (beginEvent (.recv d same) s) = t at hpacket ⊢
    have hfinish : Unread t (finishEvent t) := (Unread.refl t).still id rfl rfl
    exact hfinish.whole hpacket.1 hpacket.2
  | other e _ he ih => exact (step_unread env he _).whole ih.1 ih.2

/-- Reassembly: what was taken went to `on_read` once each and in order, the
ack is the first packet not received, and the tree holds the maximal runs of
those received above it. -/
structure Reassembled (base : SeqNo) (got : ℕ → Option OooBuf) (s : Stream) : Prop where
  takes : Takes base got s
  missing : s.st.dead = false → got s.rx.taken = none
  held : s.st.dead = false → Held base got (s.rx.taken + 1) s
  full : s.st.dead = false → ∀ b ∈ s.rx.sackTree, b.packetQueue ≠ [] ∧
    b.packetQueue.length = (b.stop - b.start).toNat

theorem Receives.reassembled (h : Receives env cfg s got) : Reassembled cfg.ack got s := by
  obtain ⟨htakes, hheld⟩ := h.whole
  refine ⟨htakes, fun hlive => (hheld hlive).missing, hheld, fun hlive b hb => ?_⟩
  obtain ⟨rs, hord, hnear, htree, -⟩ := hheld hlive
  rw [htree] at hb
  obtain ⟨r, hr, rfl⟩ := List.mem_map.mp hb
  have hpos := hord.lt_stop hr
  have hlo := hord.le_start hr
  have hhi := hnear r hr
  refine ⟨fun hnil => ?_, ?_⟩
  · have hempty : r.items = [] := hnil
    simp [Run.stop, hempty] at hpos
  · show r.items.length = (nth cfg.ack r.stop - nth cfg.ack r.start).toNat
    rw [toNat_sub_nth cfg.ack (by omega) (by omega)]
    unfold Run.stop
    omega

def reassemblyConfig : Config := { localId := 1, seq := 0, ack := 0xffffffff, now := 0 }

/-- A datagram of the peer with the payload `[x]`. -/
def lateDatagram (seq : SeqNo) (x : UInt8) : List UInt8 :=
  Header.encode { type := UDX_HEADER_DATA, dataOffset := 0, remoteId := 1, rwnd := 0, seq := seq, ack := 0 } ++ [x]

/-- The first packet comes last but one: it closes the gap below the second, and
the fourth stays held. -/
def lateReader : Stream :=
  runEvents .free [.call .readStart, .recv (lateDatagram 0 8) true, .recv (lateDatagram 2 9) true,
    .recv (lateDatagram 0xffffffff 7) true, .recv (lateDatagram 0 6) true] (Udx.init .free reassemblyConfig)

theorem Receives.reassembled_late : (∃ got, Receives .free reassemblyConfig lateReader got ∧
    Reassembled reassemblyConfig.ack got lateReader) ∧ lateReader.rx.taken = 2 ∧
    lateReader.reads = [[7], [8]] ∧ lateReader.rx.sackTree = [⟨2, 3, [⟨UDX_HEADER_DATA, [9]⟩]⟩] := by
  have hstart : Receives .free reassemblyConfig _ _ :=
    .other (.call .readStart) .init (fun _ _ => by simp)
  have hlate := hstart.recv (lateDatagram 0 8) true (by decide +kernel)
  have hfar := hlate.recv (lateDatagram 2 9) true (by decide +kernel)
  have hfirst := hfar.recv (lateDatagram 0xffffffff 7) true (by decide +kernel)
  have hagain := hfirst.recv (lateDatagram 0 6) true (by decide +kernel)
  exact ⟨⟨_, hagain, Receives.reassembled hagain⟩, by decide +kernel, by decide +kernel, by decide +kernel⟩

end Udx
