/-
# The books of the write buffers

What the counters of stream, writes and write buffers are sums of: the slices
in the packets that are out, in the packet in construction, and of the packet
that is being acknowledged. Each thing a step does to what is sent keeps the
books: a slice is packetized or counted, a packet is numbered or taken, a
buffer is queued or packetized to its end.

Key definitions: `sliceBytes`, `Tx.outBytes`, `Tx.Books`, `Tx.numberPkt`.
Key theorems: `Books.ackBytes`, `Books.take`, `Books.packetize`,
`Books.numberPkt`, `Books.queueWrite`.
-/
import Udx.Loads
import Mathlib.Algebra.BigOperators.Group.Finset.Piecewise
import Mathlib.Algebra.Order.BigOperators.Group.Finset

namespace Udx

open Serial Finset

/-! ### Sums -/

/-- One term of a sum grows. -/
theorem sum_grow {n i d : ℕ} {f g : ℕ → ℕ} (hi : i < n) (hself : g i = f i + d)
    (hother : ∀ j, j ≠ i → g j = f j) : ∑ j ∈ range n, g j = ∑ j ∈ range n, f j + d := by
  have hsplit : ∀ j ∈ range n, g j = f j + if j = i then d else 0 := by
    intro j _
    by_cases hj : j = i
    · rw [hj, if_pos rfl, hself]
    · rw [if_neg hj, hother j hj, Nat.add_zero]
  rw [sum_congr rfl hsplit, sum_add_distrib, sum_ite_eq' (range n) i fun _ => d, if_pos (mem_range.mpr hi)]

/-- The bytes of write buffer `b` in some slices. -/
def sliceBytes (b : ℕ) (cs : List Chunk) : ℕ := (cs.map fun c => if c.wbuf = b then c.len else 0).sum

@[simp] theorem sliceBytes_nil (b : ℕ) : sliceBytes b [] = 0 := rfl

@[simp] theorem sliceBytes_cons (b : ℕ) (c : Chunk) (cs : List Chunk) :
    sliceBytes b (c :: cs) = (if c.wbuf = b then c.len else 0) + sliceBytes b cs := rfl

theorem sliceBytes_append (b : ℕ) (cs ds : List Chunk) :
    sliceBytes b (cs ++ ds) = sliceBytes b cs + sliceBytes b ds := by
  simp [sliceBytes]

/-- Slices that are known are of none of the buffers to come. -/
theorem sliceBytes_fresh {n b : ℕ} (hb : n ≤ b) : ∀ {cs : List Chunk}, (∀ c ∈ cs, c.wbuf < n) →
    sliceBytes b cs = 0
  | [], _ => rfl
  | c :: cs, h => by
    have hc : c.wbuf ≠ b := Nat.ne_of_lt (Nat.lt_of_lt_of_le (h c List.mem_cons_self) hb)
    rw [sliceBytes_cons, if_neg hc, sliceBytes_fresh hb fun d hd => h d (List.mem_cons_of_mem _ hd)]

/-- A slice is no longer than all slices of its buffer. -/
theorem le_sliceBytes {c : Chunk} : ∀ {cs : List Chunk}, c ∈ cs → c.len ≤ sliceBytes c.wbuf cs
  | d :: cs, h => by
    rw [sliceBytes_cons]
    rcases List.mem_cons.mp h with rfl | h
    · rw [if_pos rfl]
      exact Nat.le_add_right ..
    · exact Nat.le_trans (le_sliceBytes h) (Nat.le_add_left ..)

/-- What the books read of a packet. -/
def Packet.page (p : Packet) : Packet := { seq := p.seq, bufs := p.bufs }

namespace Tx

/-- The bytes of write buffer `b` in the packets of `outgoing`. -/
def outBytes (t : Tx) (b : ℕ) : ℕ :=
  ∑ k ∈ range t.pkt, if t.outgoing (t.pkts k).seq = some k then sliceBytes b (t.pkts k).bufs else 0

/-- The books of the write buffers: `acking` are the slices of the packet that
is being acknowledged which are not yet counted. -/
structure Books (t : Tx) (acking : List Chunk) : Prop where
  slot : ∀ a k, t.outgoing a = some k → (t.pkts k).seq = a ∧ k < t.pkt
  known : ∀ k ≤ t.pkt, ∀ c ∈ (t.pkts k).bufs, c.wbuf < t.nwbufs
  taken : ∀ c ∈ acking, c.wbuf < t.nwbufs
  queue : ∀ b ∈ t.writeQueue, b < t.nwbufs
  owner : ∀ b < t.nwbufs, (t.wbufs b).write < t.nwrites
  inflight : ∀ b < t.nwbufs, (t.wbufs b).bytesInflight =
    t.outBytes b + sliceBytes b (t.pkts t.pkt).bufs + sliceBytes b acking
  fits : ∀ b < t.nwbufs, (t.wbufs b).bytesAcked + (t.wbufs b).bytesInflight ≤ (t.wbufs b).buf.length
  acked : ∀ w < t.nwrites, (t.writes w).bytesAcked =
    ∑ b ∈ range t.nwbufs, if (t.wbufs b).write = w then (t.wbufs b).bytesAcked else 0
  size : ∀ w < t.nwrites, (t.writes w).size =
    ∑ b ∈ range t.nwbufs, if (t.wbufs b).write = w then (t.wbufs b).buf.length else 0
  bytesQueued : t.bytesQueued = ∑ b ∈ range t.nwbufs, (t.wbufs b).buf.length
  bytesPacketized : t.bytesPacketized =
    ∑ b ∈ range t.nwbufs, ((t.wbufs b).bytesAcked + (t.wbufs b).bytesInflight)
  bytesAcked : t.bytesAcked = ∑ b ∈ range t.nwbufs, (t.wbufs b).bytesAcked
  writesQueuedBytes : t.writesQueuedBytes + t.bytesAcked = t.bytesQueued

/-- The part of the sender that the books are about. -/
def ledger (t : Tx) : Tx :=
  { outgoing := t.outgoing, pkts := fun k => (t.pkts k).page, pkt := t.pkt
    writeQueue := t.writeQueue, wbufs := t.wbufs, nwbufs := t.nwbufs, writes := t.writes, nwrites := t.nwrites
    bytesQueued := t.bytesQueued, bytesPacketized := t.bytesPacketized, bytesAcked := t.bytesAcked
    writesQueuedBytes := t.writesQueuedBytes }

/-- The packet in construction gets the next number, and an empty one takes
its place. -/
def numberPkt (t : Tx) : Tx :=
  { t with
    outgoing := Function.update t.outgoing t.seq (some t.pkt)
    pkts := Function.update (Function.update t.pkts t.pkt { t.pkts t.pkt with seq := t.seq }) (t.pkt + 1) {}
    pkt := t.pkt + 1 }

namespace Books

variable {t u : Tx} {acking : List Chunk}

theorem of_ledger (h : t.ledger.Books acking) : t.Books acking :=
  ⟨h.slot, h.known, h.taken, h.queue, h.owner, h.inflight, h.fits, h.acked, h.size, h.bytesQueued,
    h.bytesPacketized, h.bytesAcked, h.writesQueuedBytes⟩

theorem ledger (h : t.Books acking) : t.ledger.Books acking :=
  ⟨h.slot, h.known, h.taken, h.queue, h.owner, h.inflight, h.fits, h.acked, h.size, h.bytesQueued,
    h.bytesPacketized, h.bytesAcked, h.writesQueuedBytes⟩

theorem congr (h : t.Books acking) (hu : u.ledger = t.ledger) : u.Books acking :=
  of_ledger (hu ▸ h.ledger)

/-- What is left to acknowledge of a buffer is queued. -/
theorem unacked_le (h : t.Books acking) {b : ℕ} (hb : b < t.nwbufs) :
    (t.wbufs b).bytesInflight ≤ t.writesQueuedBytes := by
  have hle : ∑ i ∈ range t.nwbufs, ((t.wbufs i).bytesAcked + if i = b then (t.wbufs b).bytesInflight else 0) ≤
      ∑ i ∈ range t.nwbufs, (t.wbufs i).buf.length := by
    refine sum_le_sum fun i hi => ?_
    have hfit := h.fits i (mem_range.mp hi)
    by_cases hib : i = b
    · subst hib
      rw [if_pos rfl]
      exact hfit
    · rw [if_neg hib]
      omega
  rw [sum_add_distrib, sum_ite_eq' (range t.nwbufs) b fun _ => (t.wbufs b).bytesInflight,
    if_pos (mem_range.mpr hb), ← h.bytesAcked, ← h.bytesQueued] at hle
  have hqueued := h.writesQueuedBytes
  omega

/-- A write is not acknowledged beyond its size, nor beyond what is in flight
of one of its buffers. -/
theorem write_le (h : t.Books acking) {b : ℕ} (hb : b < t.nwbufs) :
    (t.writes (t.wbufs b).write).bytesAcked + (t.wbufs b).bytesInflight ≤ (t.writes (t.wbufs b).write).size := by
  have hw := h.owner b hb
  rw [h.acked _ hw, h.size _ hw]
  have hle : ∑ i ∈ range t.nwbufs, ((if (t.wbufs i).write = (t.wbufs b).write then (t.wbufs i).bytesAcked else 0) +
      if i = b then (t.wbufs b).bytesInflight else 0) ≤ ∑ i ∈ range t.nwbufs,
        if (t.wbufs i).write = (t.wbufs b).write then (t.wbufs i).buf.length else 0 := by
    refine sum_le_sum fun i hi => ?_
    have hfit := h.fits i (mem_range.mp hi)
    by_cases hib : i = b
    · subst hib
      simpa using hfit
    · rw [if_neg hib]
      split <;> omega
  rw [sum_add_distrib, sum_ite_eq' (range t.nwbufs) b fun _ => (t.wbufs b).bytesInflight,
    if_pos (mem_range.mpr hb)] at hle
  exact hle

/-- A slice that is to be counted is in flight. -/
theorem slice_le {c : Chunk} {rest : List Chunk} (h : t.Books (c :: rest)) :
    c.len ≤ (t.wbufs c.wbuf).bytesInflight := by
  rw [h.inflight _ (h.taken c List.mem_cons_self), sliceBytes_cons, if_pos rfl]
  omega

/-! ### Steps -/

/-- A slice is counted as acknowledged. -/
theorem ackBytes {c : Chunk} {rest : List Chunk} (h : t.Books (c :: rest)) : (t.ackBytes c).Books rest := by
  have hb := h.taken c List.mem_cons_self
  have hlen := h.slice_le
  have hw := h.owner _ hb
  have hqueued := h.unacked_le hb
  have hself : (t.ackBytes c).wbufs c.wbuf = { t.wbufs c.wbuf with
      bytesInflight := (t.wbufs c.wbuf).bytesInflight - c.len
      bytesAcked := (t.wbufs c.wbuf).bytesAcked + c.len } := Function.update_self ..
  have hother : ∀ b, b ≠ c.wbuf → (t.ackBytes c).wbufs b = t.wbufs b := fun b hne =>
    Function.update_of_ne hne ..
  have hwself : (t.ackBytes c).writes (t.wbufs c.wbuf).write = { t.writes (t.wbufs c.wbuf).write with
      bytesAcked := (t.writes (t.wbufs c.wbuf).write).bytesAcked + c.len } := Function.update_self ..
  have hwother : ∀ w, w ≠ (t.wbufs c.wbuf).write → (t.ackBytes c).writes w = t.writes w := fun w hne =>
    Function.update_of_ne hne ..
  have hwrite : ∀ b, ((t.ackBytes c).wbufs b).write = (t.wbufs b).write := by
    intro b
    by_cases hbc : b = c.wbuf
    · rw [hbc, hself]
    · rw [hother b hbc]
  have hbuf : ∀ b, ((t.ackBytes c).wbufs b).buf = (t.wbufs b).buf := by
    intro b
    by_cases hbc : b = c.wbuf
    · rw [hbc, hself]
    · rw [hother b hbc]
  refine ⟨h.slot, h.known, fun d hd => h.taken d (List.mem_cons_of_mem _ hd), h.queue, fun b hb' => ?_,
    fun b hb' => ?_, fun b hb' => ?_, fun w hw' => ?_, fun w hw' => ?_, ?_, ?_, ?_, ?_⟩
  · rw [hwrite]
    exact h.owner b hb'
  · have hin := h.inflight b hb'
    rw [sliceBytes_cons] at hin
    show ((t.ackBytes c).wbufs b).bytesInflight = t.outBytes b + sliceBytes b (t.pkts t.pkt).bufs + sliceBytes b rest
    by_cases hbc : b = c.wbuf
    · subst hbc
      rw [hself]
      rw [if_pos rfl] at hin
      dsimp only
      omega
    · rw [hother b hbc, hin, if_neg (Ne.symm hbc), Nat.zero_add]
  · have hfit := h.fits b hb'
    rw [hbuf]
    by_cases hbc : b = c.wbuf
    · subst hbc
      rw [hself]
      dsimp only
      omega
    · rw [hother b hbc]
      exact hfit
  · show ((t.ackBytes c).writes w).bytesAcked = ∑ b ∈ range t.nwbufs,
      if ((t.ackBytes c).wbufs b).write = w then ((t.ackBytes c).wbufs b).bytesAcked else 0
    by_cases hwc : w = (t.wbufs c.wbuf).write
    · subst hwc
      rw [hwself]
      show (t.writes (t.wbufs c.wbuf).write).bytesAcked + c.len = _
      rw [h.acked _ hw]
      refine (sum_grow hb ?_ fun b hne => ?_).symm
      · rw [hwrite, if_pos rfl, if_pos rfl, hself]
      · rw [hother b hne]
    · rw [hwother w hwc, h.acked w hw']
      refine sum_congr rfl fun b _ => ?_
      rw [hwrite]
      by_cases hbc : b = c.wbuf
      · rw [hbc, if_neg (Ne.symm hwc), if_neg (Ne.symm hwc)]
      · rw [hother b hbc]
  · have hsize : ((t.ackBytes c).writes w).size = (t.writes w).size := by
      by_cases hwc : w = (t.wbufs c.wbuf).write
      · rw [hwc, hwself]
      · rw [hwother w hwc]
    rw [hsize, h.size w hw']
    exact sum_congr rfl fun b _ => by rw [hwrite, hbuf]
  · show t.bytesQueued = ∑ b ∈ range t.nwbufs, ((t.ackBytes c).wbufs b).buf.length
    rw [h.bytesQueued]
    exact sum_congr rfl fun b _ => by rw [hbuf]
  · show t.bytesPacketized = ∑ b ∈ range t.nwbufs,
      (((t.ackBytes c).wbufs b).bytesAcked + ((t.ackBytes c).wbufs b).bytesInflight)
    rw [h.bytesPacketized]
    refine sum_congr rfl fun b _ => ?_
    by_cases hbc : b = c.wbuf
    · rw [hbc, hself]
      dsimp only
      omega
    · rw [hother b hbc]
  · show t.bytesAcked + c.len = ∑ b ∈ range t.nwbufs, ((t.ackBytes c).wbufs b).bytesAcked
    rw [h.bytesAcked]
    refine (sum_grow hb ?_ fun b hne => ?_).symm
    · rw [hself]
    · rw [hother b hne]
  · have htotal := h.writesQueuedBytes
    show t.writesQueuedBytes - c.len + (t.bytesAcked + c.len) = t.bytesQueued
    omega

/-- A packet that is acknowledged leaves `outgoing`. -/
theorem take (h : t.Books []) {a : SeqNo} {k : ℕ} (hk : t.outgoing a = some k) :
    (t.setOutgoing a none).Books (t.pkts k).bufs := by
  obtain ⟨hseq, hlt⟩ := h.slot a k hk
  have hout : ∀ j, (t.setOutgoing a none).outgoing (t.pkts j).seq = some j ↔
      t.outgoing (t.pkts j).seq = some j ∧ j ≠ k := by
    intro j
    show Function.update t.outgoing a none (t.pkts j).seq = some j ↔ _
    by_cases hj : (t.pkts j).seq = a
    · rw [hj, Function.update_self, hk]
      simp [eq_comm]
    · rw [Function.update_of_ne hj]
      refine ⟨fun hsome => ⟨hsome, ?_⟩, fun hsome => hsome.1⟩
      rintro rfl
      exact hj hseq
  refine ⟨fun b j hj => ?_, h.known, h.known k (Nat.le_of_lt hlt), h.queue, h.owner, fun b hb => ?_, h.fits,
    h.acked, h.size, h.bytesQueued, h.bytesPacketized, h.bytesAcked, h.writesQueuedBytes⟩
  · by_cases hba : b = a
    · subst hba
      rw [show (t.setOutgoing b none).outgoing b = none from Function.update_self ..] at hj
      cases hj
    · rw [show (t.setOutgoing a none).outgoing b = t.outgoing b from Function.update_of_ne hba ..] at hj
      exact h.slot b j hj
  · have hgrow : t.outBytes b = (t.setOutgoing a none).outBytes b + sliceBytes b (t.pkts k).bufs := by
      unfold Tx.outBytes
      refine sum_grow (i := k) hlt ?_ fun j hj => ?_
      · have hgone : ¬ (t.setOutgoing a none).outgoing ((t.setOutgoing a none).pkts k).seq = some k :=
          fun hc => ((hout k).mp hc).2 rfl
        rw [if_pos (hseq ▸ hk), if_neg hgone, Nat.zero_add]
      · show (if t.outgoing (t.pkts j).seq = some j then _ else 0) =
          if (t.setOutgoing a none).outgoing (t.pkts j).seq = some j then sliceBytes b (t.pkts j).bufs else 0
        by_cases hsome : t.outgoing (t.pkts j).seq = some j
        · rw [if_pos hsome, if_pos ((hout j).mpr ⟨hsome, hj⟩)]
        · rw [if_neg hsome, if_neg fun hc => hsome ((hout j).mp hc).1]
    have hin := h.inflight b hb
    rw [sliceBytes_nil, hgrow] at hin
    show (t.wbufs b).bytesInflight = (t.setOutgoing a none).outBytes b + sliceBytes b (t.pkts t.pkt).bufs +
      sliceBytes b (t.pkts k).bufs
    omega

/-- A slice of `len` bytes goes into the packet in construction. -/
theorem packetize (h : t.Books acking) {b len : ℕ} (hb : b < t.nwbufs) (hlen : len ≤ (t.wbufs b).writesz) :
    (t.packetize b len).Books acking := by
  have hself : (t.packetize b len).wbufs b = { t.wbufs b with
      bytesInflight := (t.wbufs b).bytesInflight + len } := Function.update_self ..
  have hother : ∀ i, i ≠ b → (t.packetize b len).wbufs i = t.wbufs i := fun i hne =>
    Function.update_of_ne hne ..
  have hkeep : ∀ i, ((t.packetize b len).wbufs i).write = (t.wbufs i).write ∧
      ((t.packetize b len).wbufs i).buf = (t.wbufs i).buf ∧
      ((t.packetize b len).wbufs i).bytesAcked = (t.wbufs i).bytesAcked := by
    intro i
    by_cases hib : i = b
    · rw [hib, hself]
      exact ⟨rfl, rfl, rfl⟩
    · rw [hother i hib]
      exact ⟨rfl, rfl, rfl⟩
  have hpself : ((t.packetize b len).pkts t.pkt).seq = (t.pkts t.pkt).seq ∧
      ∃ base, ((t.packetize b len).pkts t.pkt).bufs = (t.pkts t.pkt).bufs ++ [⟨b, base, len⟩] := by
    rw [show (t.packetize b len).pkts t.pkt = _ from Function.update_self ..]
    exact ⟨rfl, _, rfl⟩
  have hpother : ∀ k, k ≠ t.pkt → (t.packetize b len).pkts k = t.pkts k := fun k hne =>
    Function.update_of_ne hne ..
  have hseq : ∀ k, ((t.packetize b len).pkts k).seq = (t.pkts k).seq := by
    intro k
    by_cases hk : k = t.pkt
    · rw [hk, hpself.1]
    · rw [hpother k hk]
  obtain ⟨-, base, hbufs⟩ := hpself
  have hout : ∀ i, (t.packetize b len).outBytes i = t.outBytes i := by
    intro i
    unfold Tx.outBytes
    refine sum_congr rfl fun k hk => ?_
    have hne : k ≠ t.pkt := Nat.ne_of_lt (mem_range.mp hk)
    rw [hpother k hne]
    rfl
  refine ⟨fun a k hk => ⟨(hseq k).trans (h.slot a k hk).1, (h.slot a k hk).2⟩, fun k hk c hc => ?_, h.taken,
    h.queue, fun i hi => ?_, fun i hi => ?_, fun i hi => ?_, fun w hw => ?_, fun w hw => ?_, ?_, ?_, ?_,
    h.writesQueuedBytes⟩
  · by_cases hkp : k = t.pkt
    · rw [hkp, hbufs] at hc
      rcases List.mem_append.mp hc with hc | hc
      · exact h.known _ (Nat.le_refl _) c hc
      · rw [List.mem_singleton.mp hc]
        exact hb
    · rw [hpother k hkp] at hc
      exact h.known k hk c hc
  · rw [(hkeep i).1]
    exact h.owner i hi
  · have hin := h.inflight i hi
    show ((t.packetize b len).wbufs i).bytesInflight = (t.packetize b len).outBytes i +
      sliceBytes i ((t.packetize b len).pkts t.pkt).bufs + sliceBytes i acking
    rw [hout, hbufs, sliceBytes_append, sliceBytes_cons, sliceBytes_nil]
    by_cases hib : i = b
    · subst hib
      rw [hself, if_pos rfl]
      dsimp only
      omega
    · rw [hother i hib, if_neg (Ne.symm hib)]
      omega
  · have hfit := h.fits i hi
    rw [(hkeep i).2.1, (hkeep i).2.2]
    by_cases hib : i = b
    · subst hib
      rw [hself]
      unfold WriteBuf.writesz at hlen
      dsimp only
      omega
    · rw [hother i hib]
      exact hfit
  · refine (h.acked w hw).trans (sum_congr rfl fun i _ => ?_)
    rw [(hkeep i).1, (hkeep i).2.2]
  · refine (h.size w hw).trans (sum_congr rfl fun i _ => ?_)
    rw [(hkeep i).1, (hkeep i).2.1]
  · refine h.bytesQueued.trans (sum_congr rfl fun i _ => ?_)
    rw [(hkeep i).2.1]
  · show t.bytesPacketized + len = _
    rw [h.bytesPacketized]
    refine (sum_grow hb ?_ fun i hne => ?_).symm
    · rw [hself]
      dsimp only
      omega
    · rw [hother i hne]
  · refine h.bytesAcked.trans (sum_congr rfl fun i _ => ?_)
    rw [(hkeep i).2.2]

/-- A write buffer leaves the write queue. -/
theorem shift (h : t.Books acking) {b : ℕ} {rest : List ℕ} (hq : t.writeQueue = b :: rest) :
    (t.shiftWrite b rest).Books acking := by
  have hqueue : ∀ i ∈ rest, i < t.nwbufs := fun i hi => h.queue i (hq ▸ List.mem_cons_of_mem _ hi)
  exact ⟨h.slot, h.known, h.taken, hqueue, h.owner, h.inflight, h.fits, h.acked, h.size, h.bytesQueued,
    h.bytesPacketized, h.bytesAcked, h.writesQueuedBytes⟩

/-- The packet in construction goes out. -/
theorem numberPkt (h : t.Books acking) (hfree : t.outgoing t.seq = none) : t.numberPkt.Books acking := by
  have hself : t.numberPkt.pkts t.pkt = { t.pkts t.pkt with seq := t.seq } := by
    unfold Tx.numberPkt
    dsimp only
    rw [Function.update_of_ne (by omega), Function.update_self]
  have hnext : t.numberPkt.pkts (t.pkt + 1) = {} := Function.update_self ..
  have hother : ∀ k < t.pkt, t.numberPkt.pkts k = t.pkts k := by
    intro k hk
    unfold Tx.numberPkt
    dsimp only
    rw [Function.update_of_ne (by omega), Function.update_of_ne (by omega)]
  have hslot : t.numberPkt.outgoing t.seq = some t.pkt := Function.update_self ..
  have hslots : ∀ a, a ≠ t.seq → t.numberPkt.outgoing a = t.outgoing a := fun a hne =>
    Function.update_of_ne hne ..
  refine ⟨fun a k hk => ?_, fun k hk c hc => ?_, h.taken, h.queue, h.owner, fun b hb => ?_, h.fits, h.acked,
    h.size, h.bytesQueued, h.bytesPacketized, h.bytesAcked, h.writesQueuedBytes⟩
  · by_cases ha : a = t.seq
    · rw [ha, hslot] at hk
      obtain rfl := Option.some.inj hk
      rw [hself]
      exact ⟨ha.symm, Nat.lt_succ_self _⟩
    · rw [hslots a ha] at hk
      obtain ⟨hseq, hlt⟩ := h.slot a k hk
      rw [hother k hlt]
      exact ⟨hseq, Nat.lt_succ_of_lt hlt⟩
  · have hk' : k ≤ t.pkt + 1 := hk
    rcases Nat.lt_trichotomy k t.pkt with hlt | rfl | hgt
    · rw [hother k hlt] at hc
      exact h.known k (Nat.le_of_lt hlt) c hc
    · rw [hself] at hc
      exact h.known _ (Nat.le_refl _) c hc
    · rw [show k = t.pkt + 1 by omega, hnext] at hc
      cases hc
  · have hold : ∀ k ∈ range t.pkt, (if t.numberPkt.outgoing (t.numberPkt.pkts k).seq = some k then
        sliceBytes b (t.numberPkt.pkts k).bufs else 0) =
        if t.outgoing (t.pkts k).seq = some k then sliceBytes b (t.pkts k).bufs else 0 := by
      intro k hk
      have hlt := mem_range.mp hk
      rw [hother k hlt]
      by_cases hseq : (t.pkts k).seq = t.seq
      · have hne : ¬ some t.pkt = some k := fun hc => Nat.ne_of_gt hlt (Option.some.inj hc)
        rw [hseq, hslot, hfree, if_neg hne, if_neg nofun]
      · rw [hslots _ hseq]
    have hout : t.numberPkt.outBytes b = t.outBytes b + sliceBytes b (t.pkts t.pkt).bufs := by
      unfold Tx.outBytes
      show ∑ k ∈ range (t.pkt + 1), _ = _
      rw [sum_range_succ, sum_congr rfl hold, hself, hslot, if_pos rfl]
    have hin := h.inflight b hb
    show (t.wbufs b).bytesInflight = t.numberPkt.outBytes b +
      sliceBytes b (t.numberPkt.pkts (t.pkt + 1)).bufs + sliceBytes b acking
    rw [hout, hnext, sliceBytes_nil]
    omega

/-- A write with no buffers yet. -/
theorem newWrite (h : t.Books acking) (onAck isWriteEnd : Bool) :
    ({ t.setWrite t.nwrites (fun _ => { isWriteEnd := isWriteEnd, onAck := onAck }) with
      nwrites := t.nwrites + 1 } : Tx).Books acking := by
  have hself : (t.setWrite t.nwrites fun _ => { isWriteEnd := isWriteEnd, onAck := onAck }).writes t.nwrites =
      { isWriteEnd := isWriteEnd, onAck := onAck } := Function.update_self ..
  have hother : ∀ w < t.nwrites, (t.setWrite t.nwrites fun _ =>
      { isWriteEnd := isWriteEnd, onAck := onAck }).writes w = t.writes w := fun w hw =>
    Function.update_of_ne (Nat.ne_of_lt hw) ..
  have hnone : ∀ f : ℕ → ℕ, (∑ b ∈ range t.nwbufs, if (t.wbufs b).write = t.nwrites then f b else 0) = 0 := by
    intro f
    refine sum_eq_zero fun b hb => if_neg (Nat.ne_of_lt (h.owner b (mem_range.mp hb)))
  refine ⟨h.slot, h.known, h.taken, h.queue, fun b hb => Nat.lt_succ_of_lt (h.owner b hb), h.inflight, h.fits,
    fun w hw => ?_, fun w hw => ?_, h.bytesQueued, h.bytesPacketized, h.bytesAcked, h.writesQueuedBytes⟩
  · rcases Nat.lt_succ_iff_lt_or_eq.mp hw with hlt | rfl
    · exact (congrArg Write.bytesAcked (hother w hlt)).trans (h.acked w hlt)
    · exact (congrArg Write.bytesAcked hself).trans (hnone _).symm
  · rcases Nat.lt_succ_iff_lt_or_eq.mp hw with hlt | rfl
    · exact (congrArg Write.size (hother w hlt)).trans (h.size w hlt)
    · exact (congrArg Write.size hself).trans (hnone _).symm

/-- A buffer joins the write queue. -/
theorem newBuf (h : t.Books acking) {w : ℕ} (hw : w < t.nwrites) (buf : List UInt8) (last : Bool) :
    ({ (t.setWbuf t.nwbufs fun _ => { buf := buf, write := w, isWriteEnd := last }).setWrite w
        (fun x => { x with size := x.size + buf.length }) with
      nwbufs := t.nwbufs + 1
      bytesQueued := t.bytesQueued + buf.length
      writesQueuedBytes := t.writesQueuedBytes + buf.length
      writeQueue := t.writeQueue ++ [t.nwbufs] } : Tx).Books acking := by
  have hself : (t.setWbuf t.nwbufs fun _ => { buf := buf, write := w, isWriteEnd := last }).wbufs t.nwbufs =
      { buf := buf, write := w, isWriteEnd := last } := Function.update_self ..
  have hother : ∀ b ∈ range t.nwbufs, (t.setWbuf t.nwbufs fun _ =>
      { buf := buf, write := w, isWriteEnd := last }).wbufs b = t.wbufs b := fun b hb =>
    Function.update_of_ne (Nat.ne_of_lt (mem_range.mp hb)) ..
  have hcase : ∀ {b}, b < t.nwbufs + 1 → b ∈ range t.nwbufs ∨ b = t.nwbufs := fun hb =>
    (Nat.lt_succ_iff_lt_or_eq.mp hb).imp_left mem_range.mpr
  have hwself : ((t.setWbuf t.nwbufs fun _ => { buf := buf, write := w, isWriteEnd := last }).setWrite w
      fun x => { x with size := x.size + buf.length }).writes w =
      { t.writes w with size := (t.writes w).size + buf.length } := Function.update_self ..
  have hwother : ∀ v, v ≠ w → ((t.setWbuf t.nwbufs fun _ =>
      { buf := buf, write := w, isWriteEnd := last }).setWrite w
      fun x => { x with size := x.size + buf.length }).writes v = t.writes v := fun v hv =>
    Function.update_of_ne hv ..
  have hsum : ∀ f : WriteBuf → ℕ, ∑ b ∈ range (t.nwbufs + 1), f ((t.setWbuf t.nwbufs fun _ =>
      { buf := buf, write := w, isWriteEnd := last }).wbufs b) =
      ∑ b ∈ range t.nwbufs, f (t.wbufs b) + f { buf := buf, write := w, isWriteEnd := last } := by
    intro f
    rw [sum_range_succ, hself, sum_congr rfl fun b hb => congrArg f (hother b hb)]
  have hfresh : t.outBytes t.nwbufs + sliceBytes t.nwbufs (t.pkts t.pkt).bufs + sliceBytes t.nwbufs acking = 0 := by
    have hout : t.outBytes t.nwbufs = 0 := by
      refine sum_eq_zero fun k hk => ?_
      rw [sliceBytes_fresh (Nat.le_refl _) (h.known k (Nat.le_of_lt (mem_range.mp hk)))]
      exact ite_self 0
    rw [hout, sliceBytes_fresh (Nat.le_refl _) (h.known _ (Nat.le_refl _)),
      sliceBytes_fresh (Nat.le_refl _) h.taken]
  refine ⟨h.slot, fun k hk c hc => Nat.lt_succ_of_lt (h.known k hk c hc),
    fun c hc => Nat.lt_succ_of_lt (h.taken c hc), fun b hb => ?_, fun b hb => ?_, fun b hb => ?_, fun b hb => ?_,
    fun v hv => ?_, fun v hv => ?_, ?_, ?_, ?_, ?_⟩
  · rcases List.mem_append.mp hb with hb | hb
    · exact Nat.lt_succ_of_lt (h.queue b hb)
    · exact (List.mem_singleton.mp hb).symm ▸ Nat.lt_succ_self _
  · show ((t.setWbuf t.nwbufs fun _ => { buf := buf, write := w, isWriteEnd := last }).wbufs b).write < t.nwrites
    rcases hcase hb with hlt | rfl
    · rw [hother b hlt]
      exact h.owner b (mem_range.mp hlt)
    · rw [hself]
      exact hw
  · show ((t.setWbuf t.nwbufs fun _ => { buf := buf, write := w, isWriteEnd := last }).wbufs b).bytesInflight =
      t.outBytes b + sliceBytes b (t.pkts t.pkt).bufs + sliceBytes b acking
    rcases hcase hb with hlt | rfl
    · rw [hother b hlt]
      exact h.inflight b (mem_range.mp hlt)
    · rw [hself, hfresh]
  · show ((t.setWbuf t.nwbufs fun _ => { buf := buf, write := w, isWriteEnd := last }).wbufs b).bytesAcked +
      ((t.setWbuf t.nwbufs fun _ => { buf := buf, write := w, isWriteEnd := last }).wbufs b).bytesInflight ≤
      ((t.setWbuf t.nwbufs fun _ => { buf := buf, write := w, isWriteEnd := last }).wbufs b).buf.length
    rcases hcase hb with hlt | rfl
    · rw [hother b hlt]
      exact h.fits b (mem_range.mp hlt)
    · rw [hself]
      exact Nat.zero_le _
  · refine Eq.trans ?_ (hsum fun x => if x.write = v then x.bytesAcked else 0).symm
    by_cases hvw : v = w
    · subst hvw
      exact (congrArg Write.bytesAcked hwself).trans ((h.acked v hv).trans (by simp))
    · rw [if_neg (Ne.symm hvw)]
      exact (congrArg Write.bytesAcked (hwother v hvw)).trans (h.acked v hv)
  · refine Eq.trans ?_ (hsum fun x => if x.write = v then x.buf.length else 0).symm
    by_cases hvw : v = w
    · subst hvw
      rw [if_pos rfl]
      exact (congrArg Write.size hwself).trans (congrArg (· + buf.length) (h.size v hv))
    · rw [if_neg (Ne.symm hvw)]
      exact (congrArg Write.size (hwother v hvw)).trans (h.size v hv)
  · exact Eq.trans (congrArg (· + buf.length) h.bytesQueued) (hsum fun x => x.buf.length).symm
  · exact Eq.trans h.bytesPacketized (hsum fun x => x.bytesAcked + x.bytesInflight).symm
  · exact Eq.trans h.bytesAcked (hsum fun x => x.bytesAcked).symm
  · have htotal := h.writesQueuedBytes
    show t.writesQueuedBytes + buf.length + t.bytesAcked = t.bytesQueued + buf.length
    omega

theorem queueBufs {w : ℕ} {isWriteEnd : Bool} : ∀ (bufs : List (List UInt8)) {t : Tx}, t.Books acking →
    w < t.nwrites → (queueBufs w isWriteEnd bufs t).Books acking
  | [], _, h, _ => h
  | buf :: rest, _, h, hw => queueBufs rest (h.newBuf hw buf (isWriteEnd && rest.isEmpty)) hw

/-- A write is queued. -/
theorem queueWrite (h : t.Books acking) (bufs : List (List UInt8)) (onAck isWriteEnd : Bool) :
    (t.queueWrite bufs onAck isWriteEnd).Books acking :=
  queueBufs bufs (h.newWrite onAck isWriteEnd) (Nat.lt_succ_self _)

end Books

end Tx

end Udx
