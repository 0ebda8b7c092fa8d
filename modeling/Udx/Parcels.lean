/-
# The packets carry what was written

The data of the packets, one packet after another and the packet in
construction last, is what was written up to `bytes_packetized`: no byte is
left out, sent in two packets or out of order, however the writes are cut into
buffers, the buffers into slices and the slices combined into packets, and
whatever is acknowledged meanwhile.

Key definitions: `Tx.written`, `Tx.payload`, `Tx.Parcels`.
Key theorems: `Loads.parcels`, `Path.packed`, `Path.carried_written`.
-/
import Udx.Balances

namespace Udx

open Serial

/-- How much of a write buffer is in packets. -/
def WriteBuf.used (b : WriteBuf) : ℕ := b.bytesAcked + b.bytesInflight

namespace Tx

/-- What was given to write, in order. -/
def written (t : Tx) : List UInt8 := (List.range t.nwbufs).flatMap fun b => (t.wbufs b).buf

/-- What was written before buffer `b`. -/
def before (t : Tx) (b : ℕ) : List UInt8 := (List.range b).flatMap fun i => (t.wbufs i).buf

/-- The data of packet `k`. -/
def payload (t : Tx) (k : ℕ) : List UInt8 := (t.pkts k).bufs.flatMap fun c => t.bytesOf (.data c)

/-- The data of the packets before packet `n`. -/
def carried (t : Tx) (n : ℕ) : List UInt8 := (List.range n).flatMap t.payload

/-- What is in no packet yet. -/
def waiting (t : Tx) : List UInt8 := t.writeQueue.flatMap fun b => (t.wbufs b).buf.drop (t.wbufs b).used

/-- The packets carry what was written up to `bytesPacketized`, and the write
queue has the buffers from there on. -/
structure Parcels (t : Tx) : Prop where
  carried : t.carried (t.pkt + 1) = t.written.take t.bytesPacketized
  queue : ∃ j ≤ t.nwbufs, t.writeQueue = List.range' j (t.nwbufs - j) ∧
    t.bytesPacketized = (t.before j).length + (t.wbufs j).used ∧
    ∀ i, j < i ∨ t.nwbufs ≤ i → (t.wbufs i).used = 0

section

variable {t u : Tx} {b k n : ℕ}

theorem payload_congr (hp : (u.pkts k).bufs = (t.pkts k).bufs)
    (hw : ∀ c ∈ (t.pkts k).bufs, (u.wbufs c.wbuf).buf = (t.wbufs c.wbuf).buf) : u.payload k = t.payload k := by
  unfold payload bytesOf
  rw [hp]
  dsimp only
  exact congrArg List.flatten (List.map_congr_left fun c hc => by rw [hw c hc])

theorem carried_succ (t : Tx) (n : ℕ) : t.carried (n + 1) = t.carried n ++ t.payload n := by
  unfold carried
  simp [List.range_succ]

theorem carried_congr (h : ∀ k < n, u.payload k = t.payload k) : u.carried n = t.carried n := by
  unfold carried
  exact congrArg List.flatten (List.map_congr_left fun k hk => h k (List.mem_range.mp hk))

theorem before_succ (t : Tx) (b : ℕ) : t.before (b + 1) = t.before b ++ (t.wbufs b).buf := by
  unfold before
  simp [List.range_succ]

theorem before_congr (h : ∀ i < b, (u.wbufs i).buf = (t.wbufs i).buf) : u.before b = t.before b := by
  unfold before
  exact congrArg List.flatten (List.map_congr_left fun i hi => h i (List.mem_range.mp hi))

/-- What was written, around buffer `b`. -/
theorem written_split (hb : b < t.nwbufs) : t.written = t.before b ++ ((t.wbufs b).buf ++
    (List.range' (b + 1) (t.nwbufs - (b + 1))).flatMap fun i => (t.wbufs i).buf) := by
  have hrange : List.range t.nwbufs = List.range b ++ b :: List.range' (b + 1) (t.nwbufs - (b + 1)) := by
    have happend := List.range'_append_1 (s := 0) (m := b) (n := t.nwbufs - (b + 1) + 1)
    rw [Nat.zero_add, List.range'_succ, show b + (t.nwbufs - (b + 1) + 1) = t.nwbufs by omega] at happend
    rw [List.range_eq_range', List.range_eq_range', happend]
  unfold written before
  rw [hrange, List.flatMap_append, List.flatMap_cons]

/-- The next bytes of buffer `b` are the next ones written. -/
theorem written_next (hb : b < t.nwbufs) {used len : ℕ} (hlen : used + len ≤ (t.wbufs b).buf.length) :
    t.written.take ((t.before b).length + used + len) =
      t.written.take ((t.before b).length + used) ++ ((t.wbufs b).buf.drop used).take len := by
  have hsplit := written_split hb
  have hdrop : (t.written.drop ((t.before b).length + used)).take len = ((t.wbufs b).buf.drop used).take len := by
    have hle : len ≤ ((t.wbufs b).buf.drop used).length := by
      rw [List.length_drop]
      omega
    rw [hsplit, List.drop_append, List.drop_of_length_le (by omega), List.nil_append, Nat.add_sub_cancel_left,
      List.drop_append_of_le_length (by omega), List.take_append_of_le_length hle]
  rw [List.take_add, hdrop]

end

namespace Parcels

variable {t u : Tx}

theorem of_ledger (h : t.ledger.Parcels) : t.Parcels := ⟨h.carried, h.queue⟩

theorem ledger (h : t.Parcels) : t.ledger.Parcels := ⟨h.carried, h.queue⟩

theorem congr (h : t.Parcels) (hu : u.ledger = t.ledger) : u.Parcels := of_ledger (hu ▸ h.ledger)

/-- A slice of the first buffer in the write queue goes into the packet in
construction. -/
theorem packetize (h : t.Parcels) {b len : ℕ} {rest : List ℕ} (hq : t.writeQueue = b :: rest)
    (hlen : len ≤ (t.wbufs b).writesz) : (t.packetize b len).Parcels := by
  obtain ⟨j, hj, hqueue, hbytes, hlater⟩ := h.queue
  have hhead : j = b ∧ b < t.nwbufs := by
    rw [hq] at hqueue
    obtain ⟨rfl, hpos, -⟩ := List.range'_eq_cons_iff.mp hqueue.symm
    exact ⟨rfl, by omega⟩
  obtain ⟨rfl, hb⟩ := hhead
  have hself : (t.packetize j len).wbufs j = { t.wbufs j with
      bytesInflight := (t.wbufs j).bytesInflight + len } := Function.update_self ..
  have hother : ∀ i, i ≠ j → (t.packetize j len).wbufs i = t.wbufs i := fun i hne => Function.update_of_ne hne ..
  have hbuf : ∀ i, ((t.packetize j len).wbufs i).buf = (t.wbufs i).buf := by
    intro i
    by_cases hi : i = j
    · rw [hi, hself]
    · rw [hother i hi]
  have hbufs : ((t.packetize j len).pkts t.pkt).bufs = (t.pkts t.pkt).bufs ++ [⟨j, (t.wbufs j).used, len⟩] := by
    rw [show (t.packetize j len).pkts t.pkt = _ from Function.update_self ..]
    rfl
  have hcarried : (t.packetize j len).carried t.pkt = t.carried t.pkt := by
    refine carried_congr fun k hk => payload_congr ?_ fun c _ => hbuf c.wbuf
    rw [show (t.packetize j len).pkts k = t.pkts k from Function.update_of_ne (Nat.ne_of_lt hk) ..]
  have hlast : (t.packetize j len).payload t.pkt =
      t.payload t.pkt ++ ((t.wbufs j).buf.drop (t.wbufs j).used).take len := by
    unfold payload
    rw [hbufs, List.flatMap_append, List.flatMap_cons, List.flatMap_nil, List.append_nil]
    unfold bytesOf
    dsimp only
    rw [hbuf j]
    exact congrArg (· ++ _) (congrArg List.flatten (List.map_congr_left fun c _ => by rw [hbuf]))
  have hwritten : (t.packetize j len).written = t.written :=
    congrArg List.flatten (List.map_congr_left fun i _ => hbuf i)
  have hfit : (t.wbufs j).used + len ≤ (t.wbufs j).buf.length ∨ len = 0 := by
    unfold WriteBuf.used
    unfold WriteBuf.writesz at hlen
    omega
  have hnext : t.written.take (t.bytesPacketized + len) =
      t.written.take t.bytesPacketized ++ ((t.wbufs j).buf.drop (t.wbufs j).used).take len := by
    rcases hfit with hfit | rfl
    · rw [hbytes]
      exact written_next hb hfit
    · rw [Nat.add_zero, List.take_zero, List.append_nil]
  refine ⟨?_, j, hj, hqueue, ?_, fun i hi => ?_⟩
  · show (t.packetize j len).carried (t.pkt + 1) = (t.packetize j len).written.take (t.bytesPacketized + len)
    rw [carried_succ, hcarried, hlast, hwritten, hnext, ← h.carried, carried_succ, List.append_assoc]
  · show t.bytesPacketized + len = _
    rw [before_congr fun i _ => hbuf i, hself, hbytes]
    unfold WriteBuf.used
    dsimp only
    omega
  · have hi' : j < i ∨ t.nwbufs ≤ i := hi
    rw [hother i (by omega)]
    exact hlater i hi'

/-- A write buffer that is packetized leaves the write queue. -/
theorem shift (h : t.Parcels) {b : ℕ} {rest : List ℕ} (hq : t.writeQueue = b :: rest)
    (hfull : (t.wbufs b).used = (t.wbufs b).buf.length) : (t.shiftWrite b rest).Parcels := by
  obtain ⟨j, hj, hqueue, hbytes, hlater⟩ := h.queue
  rw [hq] at hqueue
  obtain ⟨rfl, hpos, hrest⟩ := List.range'_eq_cons_iff.mp hqueue.symm
  refine ⟨h.carried, j + 1, by show j + 1 ≤ t.nwbufs; omega, ?_, ?_, fun i hi => ?_⟩
  · show rest = List.range' (j + 1) (t.nwbufs - (j + 1))
    rw [hrest, Nat.sub_sub]
  · show t.bytesPacketized = (t.before (j + 1)).length + (t.wbufs (j + 1)).used
    rw [hlater (j + 1) (.inl (Nat.lt_succ_self j)), before_succ, List.length_append, hbytes, hfull]
    rfl
  · refine hlater i ?_
    rcases hi with hi | hi
    · exact .inl (by omega)
    · exact .inr hi

/-- The packet in construction goes out. -/
theorem numberPkt (h : t.Parcels) : t.numberPkt.Parcels := by
  have hkeep : ∀ k ≤ t.pkt, t.numberPkt.payload k = t.payload k := by
    intro k hk
    refine payload_congr ?_ fun _ _ => rfl
    unfold Tx.numberPkt
    dsimp only
    rw [Function.update_of_ne (by omega)]
    by_cases hk' : k = t.pkt
    · rw [hk', Function.update_self]
    · rw [Function.update_of_ne hk']
  have hempty : t.numberPkt.payload (t.pkt + 1) = [] := by
    unfold payload
    rw [show t.numberPkt.pkts (t.pkt + 1) = {} from Function.update_self ..]
    rfl
  refine ⟨?_, h.queue⟩
  show t.numberPkt.carried (t.pkt + 1 + 1) = t.written.take t.bytesPacketized
  rw [carried_succ, hempty, List.append_nil, carried_congr fun k hk => hkeep k (Nat.le_of_lt_succ hk), h.carried]

/-- The bytes of a slice are acknowledged. -/
theorem ackBytes (h : t.Parcels) {c : Chunk} (hc : c.len ≤ (t.wbufs c.wbuf).bytesInflight) :
    (t.ackBytes c).Parcels := by
  have hkeep : ∀ i, ((t.ackBytes c).wbufs i).buf = (t.wbufs i).buf ∧
      ((t.ackBytes c).wbufs i).used = (t.wbufs i).used := by
    intro i
    by_cases hi : i = c.wbuf
    · have hself : (t.ackBytes c).wbufs c.wbuf = { t.wbufs c.wbuf with
          bytesInflight := (t.wbufs c.wbuf).bytesInflight - c.len
          bytesAcked := (t.wbufs c.wbuf).bytesAcked + c.len } := Function.update_self ..
      rw [hi, hself]
      refine ⟨rfl, ?_⟩
      unfold WriteBuf.used
      dsimp only
      omega
    · rw [show (t.ackBytes c).wbufs i = t.wbufs i from Function.update_of_ne hi ..]
      exact ⟨rfl, rfl⟩
  have hcarried : (t.ackBytes c).carried (t.pkt + 1) = t.carried (t.pkt + 1) :=
    carried_congr fun k _ => payload_congr rfl fun d _ => (hkeep d.wbuf).1
  have hwritten : (t.ackBytes c).written = t.written :=
    congrArg List.flatten (List.map_congr_left fun i _ => (hkeep i).1)
  obtain ⟨j, hj, hqueue, hbytes, hlater⟩ := h.queue
  refine ⟨?_, j, hj, hqueue, ?_, fun i hi => (hkeep i).2.trans (hlater i hi)⟩
  · show (t.ackBytes c).carried (t.pkt + 1) = (t.ackBytes c).written.take t.bytesPacketized
    rw [hcarried, hwritten, h.carried]
  · rw [before_congr fun i _ => (hkeep i).1, (hkeep j).2]
    exact hbytes

/-- A buffer joins the write queue. -/
theorem newBuf (h : t.Parcels) {acking : List Chunk} (hb : t.Books acking) (w : ℕ) (buf : List UInt8) (last : Bool) :
    ({ (t.setWbuf t.nwbufs fun _ => { buf := buf, write := w, isWriteEnd := last }).setWrite w
        (fun x => { x with size := x.size + buf.length }) with
      nwbufs := t.nwbufs + 1
      bytesQueued := t.bytesQueued + buf.length
      writesQueuedBytes := t.writesQueuedBytes + buf.length
      writeQueue := t.writeQueue ++ [t.nwbufs] } : Tx).Parcels := by
  obtain ⟨j, hj, hqueue, hbytes, hlater⟩ := h.queue
  have hself : (t.setWbuf t.nwbufs fun _ => { buf := buf, write := w, isWriteEnd := last }).wbufs t.nwbufs =
      { buf := buf, write := w, isWriteEnd := last } := Function.update_self ..
  have hother : ∀ b, b ≠ t.nwbufs → (t.setWbuf t.nwbufs fun _ =>
      { buf := buf, write := w, isWriteEnd := last }).wbufs b = t.wbufs b := fun b hne => Function.update_of_ne hne ..
  have hle : t.bytesPacketized ≤ t.written.length := by
    rcases Nat.lt_or_ge j t.nwbufs with hlt | hge
    · have hsplit := written_split hlt
      have hfit : (t.wbufs j).used ≤ (t.wbufs j).buf.length := hb.fits j hlt
      rw [hbytes, hsplit, List.length_append, List.length_append]
      omega
    · obtain rfl : j = t.nwbufs := Nat.le_antisymm hj hge
      rw [hbytes, hlater _ (.inr (Nat.le_refl _))]
      exact Nat.le_refl (t.before t.nwbufs).length
  refine ⟨?_, j, Nat.le_succ_of_le hj, ?_, ?_, fun i hi => ?_⟩
  · refine Eq.trans (carried_congr (t := t) fun k hk => payload_congr rfl fun c hc => ?_) (h.carried.trans ?_)
    · have hlt := hb.known k (Nat.le_of_lt_succ hk) c hc
      exact congrArg WriteBuf.buf (hother c.wbuf (Nat.ne_of_lt hlt))
    · have htake : ∀ x : Tx, x.nwbufs = t.nwbufs + 1 → (∀ i < t.nwbufs, x.wbufs i = t.wbufs i) →
          t.written.take t.bytesPacketized = x.written.take t.bytesPacketized := by
        intro x hn hx
        have hbefore : x.written = x.before (t.nwbufs + 1) := by
          unfold written before
          rw [hn]
        rw [hbefore, before_succ, show x.before t.nwbufs = t.written from before_congr fun i hi => by rw [hx i hi]]
        exact (List.take_append_of_le_length hle).symm
      exact htake _ rfl fun i hi => hother i (Nat.ne_of_lt hi)
  · show t.writeQueue ++ [t.nwbufs] = List.range' j (t.nwbufs + 1 - j)
    rw [hqueue, Nat.sub_add_comm hj, List.range'_1_concat, Nat.add_sub_cancel' hj]
  · refine hbytes.trans (congrArg₂ (· + ·) (congrArg List.length (before_congr fun i hi => ?_).symm) ?_)
    · exact congrArg WriteBuf.buf (hother i (by omega))
    · by_cases hjn : j = t.nwbufs
      · rw [hjn, hlater _ (.inr (Nat.le_refl _))]
        exact (congrArg WriteBuf.used hself).symm
      · exact (congrArg WriteBuf.used (hother j hjn)).symm
  · by_cases hin : i = t.nwbufs
    · rw [hin]
      exact congrArg WriteBuf.used hself
    · refine (congrArg WriteBuf.used (hother i hin)).trans (hlater i ?_)
      rcases hi with hi | hi
      · exact .inl hi
      · exact .inr (Nat.le_of_succ_le hi)

theorem queueBufs {w : ℕ} {isWriteEnd : Bool} {acking : List Chunk} : ∀ (bufs : List (List UInt8)) {t : Tx},
    t.Parcels → t.Books acking → w < t.nwrites → (queueBufs w isWriteEnd bufs t).Parcels
  | [], _, h, _, _ => h
  | buf :: rest, _, h, hb, hw =>
    queueBufs rest (h.newBuf hb w buf (isWriteEnd && rest.isEmpty)) (hb.newBuf hw buf (isWriteEnd && rest.isEmpty)) hw

/-- A write is queued. -/
theorem queueWrite (h : t.Parcels) {acking : List Chunk} (hb : t.Books acking) (bufs : List (List UInt8))
    (onAck isWriteEnd : Bool) : (t.queueWrite bufs onAck isWriteEnd).Parcels :=
  queueBufs bufs ⟨h.carried, h.queue⟩ (hb.newWrite onAck isWriteEnd) (Nat.lt_succ_self _)

/-- What is in the packets and what is not makes up what was written. -/
theorem whole (h : t.Parcels) {acking : List Chunk} (hb : t.Books acking) :
    t.carried (t.pkt + 1) ++ t.waiting = t.written := by
  obtain ⟨j, hj, hqueue, hbytes, hlater⟩ := h.queue
  have hwaiting : t.waiting = t.written.drop t.bytesPacketized := by
    unfold waiting
    rcases Nat.lt_or_ge j t.nwbufs with hlt | hge
    · have hrest : (List.range' (j + 1) (t.nwbufs - (j + 1))).flatMap (fun b =>
          (t.wbufs b).buf.drop (t.wbufs b).used) =
          (List.range' (j + 1) (t.nwbufs - (j + 1))).flatMap fun b => (t.wbufs b).buf := by
        refine congrArg List.flatten (List.map_congr_left fun b hb => ?_)
        rw [hlater b (.inl (by simp only [List.mem_range'_1] at hb; omega)), List.drop_zero]
      have hfit : (t.wbufs j).used ≤ (t.wbufs j).buf.length := hb.fits j hlt
      have hnone : (t.before j).drop ((t.before j).length + (t.wbufs j).used) = [] :=
        List.drop_of_length_le (Nat.le_add_right ..)
      rw [hqueue, show t.nwbufs - j = t.nwbufs - (j + 1) + 1 by omega, List.range'_succ, List.flatMap_cons, hrest,
        written_split hlt, hbytes, List.drop_append, hnone, List.nil_append, Nat.add_sub_cancel_left,
        List.drop_append_of_le_length hfit]
    · obtain rfl : j = t.nwbufs := Nat.le_antisymm hj hge
      rw [hqueue, Nat.sub_self, hbytes, hlater _ (.inr (Nat.le_refl _))]
      exact (List.drop_length (l := t.written)).symm
  rw [h.carried, hwaiting, List.take_append_drop]

end Parcels

end Tx

/-- One step of a stream that is not closed and whose books are kept. -/
theorem Loads.parcels {s t : Stream} (h : Loads s t) (hc : Counted s) (hs : s.tx.Parcels)
    (hopen : t.st.closed = false) (hlog : ∀ e ∈ t.log, e.halfCounted = false) : t.tx.Parcels := by
  have htaken : ∀ c, (s.tx.setOutgoing c none).Parcels := fun c => ⟨hs.carried, hs.queue⟩
  have hcount : ∀ {x : Tx} {c : Chunk} {acking : List Chunk}, x.Books (c :: acking) →
      c.len ≤ (x.wbufs c.wbuf).bytesInflight := fun hb =>
    (hb.balances.countable _ (.inl List.mem_cons_self)).inflight
  cases h with
  | same h => exact hs.congr (Tx.ledger_of_load h.load)
  | close hprep hmtu hload hclosed => rw [hclosed] at hopen; cases hopen
  | destroy pre htm hmtu hload => exact hs.congr (Tx.ledger_of_load hload)
  | finish | capacity | prepare => exact hs.congr rfl
  | slice b rest _ hq => exact (hs.packetize hq (Nat.min_le_right ..)).congr (fillSlice_ledger b s)
  | shift b rest _ hq hfull => exact hs.shift hq hfull
  | newPacket h => exact hs.numberPkt.congr h.ledger
  | queueWrite bufs onAck isEnd hbufs h hacking hload =>
    exact (hs.queueWrite hc.books bufs onAck isEnd).congr (Tx.ledger_of_load hload)
  | take c k hk h hload => exact (htaken c).congr (Tx.ledger_of_load hload)
  | takeDead c k x rest pre hk hb h hdead hload hacking hpre hmem =>
    have hbooks := hc.books
    rw [show s.ctl.acking = [] from hpre ▸ (Entry.acking_of_ackTake (hlog _ hmem)).1] at hbooks
    have htake := hbooks.take hk
    rw [hb] at htake
    exact ((htaken c).ackBytes (hcount htake)).congr (Tx.ledger_of_load hload)
  | count c rest hacking h hload =>
    have hbooks := hc.books
    rw [hacking] at hbooks
    exact (hs.ackBytes (hcount hbooks)).congr (Tx.ledger_of_load hload)

section

variable {env : Env} {cfg : Config} {s : Stream}

theorem Path.packed (h : Path env (Move env) (Udx.init env cfg) s) (hopen : s.st.closed = false)
    (hreused : s.tx.reused = false) (hwhole : ∀ e ∈ s.log, e.halfCounted = false) :
    Counted s ∧ s.tx.Parcels := by
  have hinit : Counted (Udx.init env cfg) ∧ (Udx.init env cfg).tx.Parcels := by
    refine ⟨⟨?_, fun _ => rfl⟩, ?_⟩ <;> rw [init_tx]
    · exact ⟨nofun, nofun, nofun, nofun, nofun, nofun, nofun, nofun, nofun, rfl, rfl, rfl, rfl⟩
    · exact ⟨rfl, 0, Nat.le_refl _, rfl, rfl, fun _ _ => rfl⟩
  have hstep : ∀ {s t : Stream}, Atom env s t →
      (s.st.closed = false → s.tx.reused = false → (∀ e ∈ s.log, e.halfCounted = false) →
        Counted s ∧ s.tx.Parcels) →
      t.st.closed = false → t.tx.reused = false → (∀ e ∈ t.log, e.halfCounted = false) →
        Counted t ∧ t.tx.Parcels := by
    intro s t ha hs ht hr hlog
    have hloads := ha.loads env
    have hbefore : s.tx.reused = false := Bool.eq_false_iff.mpr fun hu => by
      rw [(ha.marks env).reused hu] at hr
      cases hr
    obtain ⟨hc, hp⟩ := hs (hloads.opened ht) hbefore fun e he => hlog e (ha.mem_log env he)
    exact ⟨hloads.counted hc ht hr hlog, hloads.parcels hc hp ht hlog⟩
  exact h.preserves (I := fun s => s.st.closed = false → s.tx.reused = false →
    (∀ e ∈ s.log, e.halfCounted = false) → Counted s ∧ s.tx.Parcels) (fun hm => (hm.atoms env).preserves hstep)
    (fun hc => (hc.atoms env).preserves hstep) (fun _ _ _ => hinit) hopen hreused hwhole

/-- In every run in which no packet is left half counted and no number is
reused, the packets of a stream that is not closed and what is left in its write
queue make up what was written. -/
theorem Path.carried_written (h : Path env (Move env) (Udx.init env cfg) s) (hopen : s.st.closed = false)
    (hreused : s.tx.reused = false) (hwhole : ∀ e ∈ s.log, e.halfCounted = false) :
    s.tx.carried (s.tx.pkt + 1) = s.tx.written.take s.tx.bytesPacketized ∧
      s.tx.carried (s.tx.pkt + 1) ++ s.tx.waiting = s.tx.written := by
  obtain ⟨hc, hp⟩ := h.packed hopen hreused hwhole
  exact ⟨hp.carried, hp.whole hc.books⟩

end

/-- Two small buffers go out; of the next write the first buffer is cut, and the
rest of it combined with the second. -/
def cutEvents : List Event :=
  [.call (.connect ⟨0, .inet⟩ 2 ⟨.inet, 1, [1, 2, 3, 4]⟩), .call (.write [[1, 2], [3]] false), .prepare,
    .call (.write [List.replicate 1200 4, [5]] true), sharedAck]

theorem Path.carried_written_cut :
    let s := runEvents .free cutEvents (Udx.init .free bookConfig)
    (List.range (s.tx.pkt + 1)).map (fun k => (s.tx.payload k).length) = [3, 1152, 49] ∧
      s.tx.carried (s.tx.pkt + 1) ++ s.tx.waiting = s.tx.written :=
  ⟨by decide +kernel, ((Reach.runEvents .init cutEvents).path.carried_written (by decide +kernel) (by decide +kernel)
    (by decide +kernel)).2⟩

end Udx
