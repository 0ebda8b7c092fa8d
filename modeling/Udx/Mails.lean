/-
# What the datagrams of packets carry

Every datagram of a packet that leaves, whether it is sent at once, sent again
or held by libuv meanwhile, is the header, the probe padding and the data of
the packet: its type and sequence number, and the bytes that were written. Its
data offset is the length of the padding, unless libuv held a probe that was
unprobed meanwhile. The packet that has the end of the last write is the END
packet, and no packet after it has any data. What all datagrams acknowledge is
what held of the ack and the SACK tree when they were written.

Key definitions: `Tx.Carries`, `Tx.Tail`, `Tx.Mailed`, `Vouches`, `Mailed`, `Entry.torn`.
Key theorems: `Tx.Mailed.carries`, `Mailed.send`.
-/
import Udx.Numbered
import Udx.Parcels
import Udx.Queues

namespace Udx

open Serial

/-! ### The packets -/

/-- What a packet says: the acks and the queues it is in are left out. -/
def Packet.label (p : Packet) : Packet :=
  { seq := p.seq, isMtuProbe := p.isMtuProbe, bufs := p.bufs
    header := { type := p.header.type, dataOffset := p.header.dataOffset, remoteId := 0, rwnd := 0
                seq := p.header.seq, ack := 0 } }

def WriteBuf.label (b : WriteBuf) : WriteBuf := { buf := b.buf, isWriteEnd := b.isWriteEnd }

/-- What decides what the packets say. -/
def Tx.mail (t : Tx) : Tx :=
  { seq := t.seq, pkt := t.pkt, pktHeaderFlag := t.pktHeaderFlag, writeQueue := t.writeQueue
    nwbufs := t.nwbufs, uvq := t.uvq, reused := t.reused, pkts := fun k => (t.pkts k).label
    wbufs := fun b => (t.wbufs b).label }

/-- A datagram of packet `k`, whose offset may be wrong where `torn` holds. -/
def Tx.Carries (t : Tx) (k : ℕ) (d : List UInt8) (torn : Prop) : Prop :=
  k < t.pkt ∧ ∃ (h : Header) (n : ℕ), d = h.encode ++ (List.replicate n 0 ++ t.payload k) ∧
    h.type = (t.pkts k).header.type ∧ h.seq = (t.pkts k).seq ∧ (h.dataOffset.toNat = n ∨ torn)

/-- What is numbered keeps its number, its type and its data. -/
structure Tx.Settled (t u : Tx) : Prop where
  pkt : t.pkt ≤ u.pkt
  payload : ∀ k < t.pkt, u.payload k = t.payload k
  type : ∀ k < t.pkt, (u.pkts k).header.type = (t.pkts k).header.type
  seq : ∀ k < t.pkt, (u.pkts k).seq = (t.pkts k).seq

theorem Tx.Carries.settled {t u : Tx} {k : ℕ} {d : List UInt8} {p q : Prop} (h : t.Carries k d p)
    (hu : t.Settled u) (hpq : p → q) : u.Carries k d q := by
  obtain ⟨hk, hd, n, heq, htype, hseq, hoff⟩ := h
  refine ⟨Nat.lt_of_lt_of_le hk hu.pkt, hd, n, ?_, htype.trans (hu.type k hk).symm,
    hseq.trans (hu.seq k hk).symm, hoff.imp_right hpq⟩
  rw [heq, hu.payload k hk]

/-- What libuv holds of packet `k`. -/
def UvSend.Of (u : UvSend) (p : Packet) : Prop :=
  ∃ pad, (pad = [] ∨ ∃ n, pad = [UvBuf.padding n]) ∧ u.bufs = .header u.pkt :: pad ++ p.bufs.map .data

/-- No more packets may be sent again, and no more slots are taken. -/
structure Tx.Within (u t : Tx) : Prop where
  unacked : ∀ k, u.Unacked k → t.Unacked k
  slots : ∀ a k, u.outgoing a = some k → t.outgoing a = some k

/-- Nothing comes after the end of the stream. -/
structure Tx.Tail (t : Tx) : Prop where
  queue : ∀ l b r, t.writeQueue = l ++ b :: r → (t.wbufs b).isWriteEnd = true → r = []
  flag : hasFlag t.pktHeaderFlag UDX_HEADER_END = true → t.writeQueue = []
  sent : ∀ k < t.pkt, hasFlag (t.pkts k).header.type UDX_HEADER_END = true →
    t.writeQueue = [] ∧ ∀ j, k < j → j ≤ t.pkt → (t.pkts j).bufs = []

/-- The stream has not ended. -/
structure Tx.Unended (t : Tx) : Prop where
  queue : ∀ b ∈ t.writeQueue, (t.wbufs b).isWriteEnd = false
  flag : hasFlag t.pktHeaderFlag UDX_HEADER_END = false
  sent : ∀ k < t.pkt, hasFlag (t.pkts k).header.type UDX_HEADER_END = false

/-- What the packets say agrees with the queues they are in. -/
structure Tx.Mailed (t : Tx) : Prop where
  waits : ∀ b ∈ t.writeQueue, b < t.nwbufs
  known : ∀ k ≤ t.pkt, ∀ c ∈ (t.pkts k).bufs, c.wbuf < t.nwbufs
  clean : ∀ k ≤ t.pkt, (t.pkts k).isMtuProbe = false → (t.pkts k).header.dataOffset = 0
  old : ∀ k, t.Unacked k → k < t.pkt
  fresh : (∃ c ∈ (t.pkts t.pkt).bufs, 0 < c.len) → hasFlag t.pktHeaderFlag UDX_HEADER_DATA = true
  data : ∀ k < t.pkt, (∃ c ∈ (t.pkts k).bufs, 0 < c.len) →
    hasFlag (t.pkts k).header.type UDX_HEADER_DATA = true
  header : ∀ k < t.pkt, (t.pkts k).header.seq = (t.pkts k).seq
  held : ∀ u ∈ t.uvq, u.pkt < t.pkt ∧ u.Of (t.pkts u.pkt)
  slot : ∀ a k, t.outgoing a = some k → (t.pkts k).seq = a
  tail : t.Tail

/-- What the packets acknowledge satisfies `P`, and they carry no SACK ranges. -/
structure Tx.Vouched (P : SeqNo → Prop) (t : Tx) : Prop where
  flag : hasFlag t.pktHeaderFlag UDX_HEADER_SACK = false
  plain : ∀ k < t.pkt, hasFlag (t.pkts k).header.type UDX_HEADER_SACK = false
  acks : ∀ k < t.pkt, P (t.pkts k).header.ack

/-- The packets are numbered from `base` on. -/
structure Tx.Sequenced (base : SeqNo) (t : Tx) : Prop where
  seq : t.seq = nth base t.pkt
  pkts : ∀ k < t.pkt, (t.pkts k).seq = nth base k

namespace Tx

section

variable {t u : Tx}

theorem Within.refl (t : Tx) : t.Within t := ⟨fun _ hk => hk, fun _ _ hk => hk⟩

theorem Within.of_flight (h : u.flight = t.flight) : u.Within t := by
  have hout : u.outgoing = t.outgoing := (congrArg Tx.outgoing h :)
  exact ⟨fun k hk => (unacked_congr h k).mp hk, fun a k hk => hout ▸ hk⟩

theorem Settled.refl (t : Tx) : t.Settled t := ⟨Nat.le_refl _, fun _ _ => rfl, fun _ _ => rfl, fun _ _ => rfl⟩

theorem label_of_mail (h : u.mail = t.mail) (k : ℕ) : (u.pkts k).label = (t.pkts k).label :=
  (congrArg (fun x : Tx => x.pkts k) h :)

theorem payload_of_mail (h : u.mail = t.mail) (k : ℕ) : u.payload k = t.payload k :=
  (congrArg (fun x : Tx => x.payload k) h :)

theorem Settled.of_mail (h : u.mail = t.mail) : t.Settled u :=
  ⟨Nat.le_of_eq (congrArg Tx.pkt h :).symm, fun k _ => payload_of_mail h k,
    fun k _ => (congrArg (fun p => p.header.type) (label_of_mail h k) :),
    fun k _ => (congrArg Packet.seq (label_of_mail h k) :)⟩

theorem isWriteEnd_of_mail (h : u.mail = t.mail) (b : ℕ) : (u.wbufs b).isWriteEnd = (t.wbufs b).isWriteEnd :=
  (congrArg (fun x : Tx => (x.wbufs b).isWriteEnd) h :)

theorem Tail.congr (ht : t.Tail) (h : u.mail = t.mail) : u.Tail := by
  have hq : u.writeQueue = t.writeQueue := (congrArg Tx.writeQueue h :)
  have hpkt : u.pkt = t.pkt := (congrArg Tx.pkt h :)
  refine ⟨fun l b r hl hb => ?_, fun hf => ?_, fun k hk he => ?_⟩
  · exact ht.queue l b r (hq.symm.trans hl) ((isWriteEnd_of_mail h b).symm.trans hb)
  · exact hq.trans (ht.flag ((congrArg Tx.pktHeaderFlag h :) ▸ hf))
  · rw [show (u.pkts k).header.type = (t.pkts k).header.type from
      (congrArg (fun p => p.header.type) (label_of_mail h k) :)] at he
    rw [hpkt] at hk
    obtain ⟨hnil, hbufs⟩ := ht.sent k hk he
    refine ⟨hq.trans hnil, fun j hkj hj => ?_⟩
    exact ((congrArg Packet.bufs (label_of_mail h j) :).trans (hbufs j hkj (hpkt ▸ hj)))

theorem Unended.congr (ht : t.Unended) (h : u.mail = t.mail) : u.Unended := by
  have hq : u.writeQueue = t.writeQueue := (congrArg Tx.writeQueue h :)
  have hpkt : u.pkt = t.pkt := (congrArg Tx.pkt h :)
  refine ⟨fun b hb => ?_, ?_, fun k hk => ?_⟩
  · exact (isWriteEnd_of_mail h b).trans (ht.queue b (hq ▸ hb))
  · rw [show u.pktHeaderFlag = t.pktHeaderFlag from (congrArg Tx.pktHeaderFlag h :)]
    exact ht.flag
  · rw [show (u.pkts k).header.type = (t.pkts k).header.type from
      (congrArg (fun p => p.header.type) (label_of_mail h k) :)]
    exact ht.sent k (hpkt ▸ hk)

/-- What the packets say and how they are queued is all that counts. -/
theorem Mailed.congr (ht : t.Mailed) (h : u.mail = t.mail) (hun : u.Within t) : u.Mailed := by
  have hpkt : u.pkt = t.pkt := (congrArg Tx.pkt h :)
  have hn : u.nwbufs = t.nwbufs := (congrArg Tx.nwbufs h :)
  have hflag : u.pktHeaderFlag = t.pktHeaderFlag := (congrArg Tx.pktHeaderFlag h :)
  have hbufs : ∀ k, (u.pkts k).bufs = (t.pkts k).bufs := fun k => (congrArg Packet.bufs (label_of_mail h k) :)
  have hprobe : ∀ k, (u.pkts k).isMtuProbe = (t.pkts k).isMtuProbe := fun k =>
    (congrArg Packet.isMtuProbe (label_of_mail h k) :)
  have hoff : ∀ k, (u.pkts k).header.dataOffset = (t.pkts k).header.dataOffset := fun k =>
    (congrArg (fun p => p.header.dataOffset) (label_of_mail h k) :)
  have htype : ∀ k, (u.pkts k).header.type = (t.pkts k).header.type := fun k =>
    (congrArg (fun p => p.header.type) (label_of_mail h k) :)
  have hseq : ∀ k, (u.pkts k).header.seq = (t.pkts k).header.seq := fun k =>
    (congrArg (fun p => p.header.seq) (label_of_mail h k) :)
  have hnum : ∀ k, (u.pkts k).seq = (t.pkts k).seq := fun k => (congrArg Packet.seq (label_of_mail h k) :)
  refine ⟨?_, fun k hk => ?_, fun k hk => ?_, fun k hk => ?_, ?_, fun k hk => ?_, fun k hk => ?_, ?_,
    fun a k hk => ?_, ht.tail.congr h⟩
  · rw [show u.writeQueue = t.writeQueue from (congrArg Tx.writeQueue h :), hn]
    exact ht.waits
  · rw [hbufs, hn]
    exact ht.known k (hpkt ▸ hk)
  · rw [hprobe, hoff]
    exact ht.clean k (hpkt ▸ hk)
  · rw [hpkt]
    exact ht.old k (hun.unacked k hk)
  · rw [hpkt, hbufs, hflag]
    exact ht.fresh
  · rw [hbufs, htype]
    exact ht.data k (hpkt ▸ hk)
  · rw [hseq, hnum]
    exact ht.header k (hpkt ▸ hk)
  · rw [show u.uvq = t.uvq from (congrArg Tx.uvq h :), hpkt]
    intro x hx
    unfold UvSend.Of
    rw [hbufs]
    exact ht.held x hx
  · rw [hnum]
    exact ht.slot a k (hun.slots a k hk)

theorem Sequenced.kept {base : SeqNo} (ht : t.Sequenced base) (hs : t.Settled u) (hseq : u.seq = t.seq)
    (hpkt : u.pkt = t.pkt) (hreused : u.reused = t.reused) :
    u.Sequenced base ∧ (u.pkt < 2 ^ 32 → t.reused = false → u.reused = false) := by
  refine ⟨⟨?_, fun k hk => ?_⟩, fun _ hr => hreused.trans hr⟩
  · rw [hseq, hpkt]
    exact ht.seq
  · rw [hpkt] at hk
    rw [hs.seq k hk]
    exact ht.pkts k hk

theorem mail_setPkt (t : Tx) (k : ℕ) {f : Packet → Packet} (h : (f (t.pkts k)).label = (t.pkts k).label) :
    (t.setPkt k f).mail = t.mail := by
  have hpkts : (fun j => ((t.setPkt k f).pkts j).label) = fun j => (t.pkts j).label := by
    funext j
    by_cases hj : j = k
    · rw [hj, setPkt_self, h]
    · rw [setPkt_of_ne hj]
  exact congrArg (fun p => { t.mail with pkts := p }) hpkts

theorem ack_setPkt (t : Tx) (k : ℕ) {f : Packet → Packet} (h : (f (t.pkts k)).header.ack = (t.pkts k).header.ack)
    (j : ℕ) : ((t.setPkt k f).pkts j).header.ack = (t.pkts j).header.ack := by
  by_cases hj : j = k
  · rw [hj, setPkt_self, h]
  · rw [setPkt_of_ne hj]

theorem Vouched.settled {P : SeqNo → Prop} (ht : t.Vouched P) (hset : t.Settled u) (hpkt : u.pkt = t.pkt)
    (hflag : hasFlag u.pktHeaderFlag UDX_HEADER_SACK = false) (hack : ∀ k < t.pkt, P (u.pkts k).header.ack) :
    u.Vouched P := by
  refine ⟨hflag, fun k hk => ?_, fun k hk => hack k (hpkt ▸ hk)⟩
  rw [hset.type k (hpkt ▸ hk)]
  exact ht.plain k (hpkt ▸ hk)

/-- The same packets, with the same acks, say the same. -/
theorem Vouched.congr {P : SeqNo → Prop} (ht : t.Vouched P) (h : u.mail = t.mail)
    (hack : ∀ k, (u.pkts k).header.ack = (t.pkts k).header.ack) : u.Vouched P := by
  refine ht.settled (.of_mail h) (congrArg Tx.pkt h :) ?_ fun k hk => hack k ▸ ht.acks k hk
  rw [show u.pktHeaderFlag = t.pktHeaderFlag from (congrArg Tx.pktHeaderFlag h :)]
  exact ht.flag

theorem mail_setWbuf (t : Tx) (b : ℕ) {f : WriteBuf → WriteBuf} (h : (f (t.wbufs b)).label = (t.wbufs b).label) :
    (t.setWbuf b f).mail = t.mail := by
  have hwbufs : (fun j => ((t.setWbuf b f).wbufs j).label) = fun j => (t.wbufs j).label := by
    funext j
    by_cases hj : j = b
    · rw [hj, show (t.setWbuf b f).wbufs b = f (t.wbufs b) from Function.update_self .., h]
    · rw [show (t.setWbuf b f).wbufs j = t.wbufs j from Function.update_of_ne hj ..]
  exact congrArg (fun w => { t.mail with wbufs := w }) hwbufs

/-! ### What the steps do to them -/

theorem packetize_isWriteEnd (t : Tx) (b len x : ℕ) :
    ((t.packetize b len).wbufs x).isWriteEnd = (t.wbufs x).isWriteEnd := by
  by_cases hx : x = b
  · rw [hx]
    exact (congrArg WriteBuf.isWriteEnd (Function.update_self b
      { t.wbufs b with bytesInflight := (t.wbufs b).bytesInflight + len } t.wbufs) :)
  · exact congrArg WriteBuf.isWriteEnd (Function.update_of_ne hx _ t.wbufs)

/-- As long as there is a buffer to slice, the stream has not ended. -/
theorem Tail.slice (ht : t.Tail) {b : ℕ} (hb : b ∈ t.writeQueue) (len : ℕ) {flag : UInt8}
    (hend : hasFlag flag UDX_HEADER_END = hasFlag t.pktHeaderFlag UDX_HEADER_END) :
    Tail { t.packetize b len with pktHeaderFlag := flag } := by
  have hne : t.writeQueue ≠ [] := List.ne_nil_of_mem hb
  refine ⟨fun l x r hl hx => ?_, fun hf => ?_, fun k hk he => ?_⟩
  · exact ht.queue l x r hl ((t.packetize_isWriteEnd b len x).symm.trans hx)
  · exact absurd (ht.flag (hend ▸ hf)) hne
  · rw [show Tx.pkts { t.packetize b len with pktHeaderFlag := flag } k = t.pkts k from
      Function.update_of_ne (Nat.ne_of_lt hk) ..] at he
    exact absurd (ht.sent k hk he).1 hne

theorem Unended.slice (ht : t.Unended) (b len : ℕ) {flag : UInt8}
    (hend : hasFlag flag UDX_HEADER_END = hasFlag t.pktHeaderFlag UDX_HEADER_END) :
    Unended { t.packetize b len with pktHeaderFlag := flag } := by
  refine ⟨fun x hx => (t.packetize_isWriteEnd b len x).trans (ht.queue x hx), hend.trans ht.flag, fun k hk => ?_⟩
  rw [show Tx.pkts { t.packetize b len with pktHeaderFlag := flag } k = t.pkts k from
    Function.update_of_ne (Nat.ne_of_lt hk) ..]
  exact ht.sent k hk

/-- A slice joins the packet in construction. -/
theorem Mailed.slice (ht : t.Mailed) {b : ℕ} (hb : b ∈ t.writeQueue) (len : ℕ) {flag : UInt8}
    (hkeep : hasFlag t.pktHeaderFlag UDX_HEADER_DATA = true → hasFlag flag UDX_HEADER_DATA = true)
    (hlen : 0 < len → hasFlag flag UDX_HEADER_DATA = true)
    (hend : hasFlag flag UDX_HEADER_END = hasFlag t.pktHeaderFlag UDX_HEADER_END) :
    Mailed { t.packetize b len with pktHeaderFlag := flag } := by
  have hself : ((t.packetize b len).pkts t.pkt).bufs = (t.pkts t.pkt).bufs ++
      [⟨b, (t.wbufs b).bytesAcked + (t.wbufs b).bytesInflight, len⟩] :=
    (congrArg Packet.bufs (Function.update_self t.pkt _ t.pkts) :)
  have hother : ∀ k, k ≠ t.pkt → (t.packetize b len).pkts k = t.pkts k := fun k hk => Function.update_of_ne hk ..
  have hprobe : ∀ k, ((t.packetize b len).pkts k).isMtuProbe = (t.pkts k).isMtuProbe ∧
      ((t.packetize b len).pkts k).header = (t.pkts k).header := by
    intro k
    by_cases hk : k = t.pkt
    · rw [hk, show (t.packetize b len).pkts t.pkt = _ from Function.update_self t.pkt _ t.pkts]
      exact ⟨rfl, rfl⟩
    · rw [hother k hk]
      exact ⟨rfl, rfl⟩
  refine ⟨ht.waits, fun k hk c hc => ?_, fun k hk hp => ?_, ht.old, ?_, fun k hk hc => ?_, fun k hk => ?_,
    fun u hu => ?_, fun a k hk => ?_, ht.tail.slice hb len hend⟩
  · by_cases hkt : k = t.pkt
    · have hmem : c ∈ (t.pkts t.pkt).bufs ++
          [⟨b, (t.wbufs b).bytesAcked + (t.wbufs b).bytesInflight, len⟩] := by
        rw [← hself, ← hkt]
        exact hc
      rcases List.mem_append.mp hmem with hold | hnew
      · exact ht.known t.pkt (Nat.le_refl _) c hold
      · rw [List.mem_singleton.mp hnew]
        exact ht.waits b hb
    · exact ht.known k hk c (hother k hkt ▸ hc)
  · rw [show (Tx.pkts { t.packetize b len with pktHeaderFlag := flag } k).header = (t.pkts k).header from
      (hprobe k).2]
    exact ht.clean k hk ((hprobe k).1 ▸ hp)
  · rintro ⟨c, hc, hpos⟩
    have hmem : c ∈ (t.pkts t.pkt).bufs ++
        [⟨b, (t.wbufs b).bytesAcked + (t.wbufs b).bytesInflight, len⟩] := hself ▸ hc
    rcases List.mem_append.mp hmem with hold | hnew
    · exact hkeep (ht.fresh ⟨c, hold, hpos⟩)
    · rw [List.mem_singleton.mp hnew] at hpos
      exact hlen hpos
  · have heq : Tx.pkts { t.packetize b len with pktHeaderFlag := flag } k = t.pkts k :=
      hother k (Nat.ne_of_lt hk)
    rw [heq] at hc ⊢
    exact ht.data k hk hc
  · have heq : Tx.pkts { t.packetize b len with pktHeaderFlag := flag } k = t.pkts k :=
      hother k (Nat.ne_of_lt hk)
    rw [heq]
    exact ht.header k hk
  · obtain ⟨hold, hof⟩ := ht.held u hu
    have heq : Tx.pkts { t.packetize b len with pktHeaderFlag := flag } u.pkt = t.pkts u.pkt :=
      hother u.pkt (Nat.ne_of_lt hold)
    rw [heq]
    exact ⟨hold, hof⟩
  · have heq : Tx.pkts { t.packetize b len with pktHeaderFlag := flag } k = t.pkts k :=
      hother k (Nat.ne_of_lt (ht.old k (.inr (.inr ⟨a, hk⟩))))
    rw [heq]
    exact ht.slot a k hk

/-- What libuv is handed of packet `p`. -/
theorem uvBufs_of (p : Packet) (k : ℕ) (dest : Dest) (q : Packet) (hq : q.bufs = p.bufs) :
    UvSend.Of { pkt := k, bufs := p.uvBufs k, dest := dest } q := by
  refine ⟨if p.isMtuProbe then [.padding p.header.dataOffset.toNat] else [], ?_, ?_⟩
  · cases p.isMtuProbe
    · exact .inl rfl
    · exact .inr ⟨_, rfl⟩
  · rw [hq]
    rfl

/-- After the END packet there is nothing to put in another one. -/
theorem Tail.number (ht : t.Tail) (hpkt : u.pkt = t.pkt + 1) (hw : u.wbufs = t.wbufs)
    (hq : u.writeQueue = t.writeQueue) (hflag : u.pktHeaderFlag = 0)
    (htype : ∀ k < t.pkt, (u.pkts k).header.type = (t.pkts k).header.type)
    (hself : (u.pkts t.pkt).header.type = t.pktHeaderFlag)
    (hbufs : ∀ k ≤ t.pkt, (u.pkts k).bufs = (t.pkts k).bufs) (hnone : (u.pkts (t.pkt + 1)).bufs = []) :
    u.Tail := by
  refine ⟨fun l b r hl hb => ?_, fun hf => ?_, fun k hk he => ?_⟩
  · exact ht.queue l b r (hq.symm.trans hl) (hw ▸ hb)
  · rw [hflag] at hf
    exact absurd hf (by decide)
  · rw [hpkt] at hk ⊢
    have hrest : t.writeQueue = [] ∧ ∀ j, k < j → j ≤ t.pkt → (t.pkts j).bufs = [] := by
      rcases Nat.lt_or_eq_of_le (Nat.le_of_lt_succ hk) with hlt | rfl
      · exact ht.sent k hlt (htype k hlt ▸ he)
      · exact ⟨ht.flag (hself ▸ he), fun j hj hj' => absurd hj (Nat.not_lt_of_le hj')⟩
    refine ⟨hq.trans hrest.1, fun j hkj hj => ?_⟩
    rcases Nat.lt_or_eq_of_le hj with hlt | rfl
    · exact (hbufs j (Nat.le_of_lt_succ hlt)).trans (hrest.2 j hkj (Nat.le_of_lt_succ hlt))
    · exact hnone

theorem Unended.number (ht : t.Unended) (hpkt : u.pkt = t.pkt + 1) (hw : u.wbufs = t.wbufs)
    (hq : u.writeQueue = t.writeQueue) (hflag : u.pktHeaderFlag = 0)
    (htype : ∀ k < t.pkt, (u.pkts k).header.type = (t.pkts k).header.type)
    (hself : (u.pkts t.pkt).header.type = t.pktHeaderFlag) : u.Unended := by
  refine ⟨fun b hb => ?_, ?_, fun k hk => ?_⟩
  · rw [hw]
    exact ht.queue b (hq ▸ hb)
  · rw [hflag]
    decide
  · rw [hpkt] at hk
    rcases Nat.lt_or_eq_of_le (Nat.le_of_lt_succ hk) with hlt | rfl
    · rw [htype k hlt]
      exact ht.sent k hlt
    · rw [hself]
      exact ht.flag

/-- Packet `t.pkt` is numbered and another one begun. -/
theorem Mailed.number (ht : t.Mailed) {p : Packet} (hbufs : p.bufs = (t.pkts t.pkt).bufs)
    (htype : p.header.type = t.pktHeaderFlag) (hheader : p.header.seq = p.seq)
    (hclean : p.isMtuProbe = false → p.header.dataOffset = 0) (hpkt : u.pkt = t.pkt + 1)
    (hother : ∀ k < t.pkt, (u.pkts k).label = (t.pkts k).label) (hself : (u.pkts t.pkt).label = p.label)
    (hnext : (u.pkts (t.pkt + 1)).label = Packet.label {}) (hq : u.writeQueue = t.writeQueue)
    (hn : u.nwbufs = t.nwbufs) (hw : u.wbufs = t.wbufs) (hflag : u.pktHeaderFlag = 0)
    (hun : ∀ k, u.Unacked k → t.Unacked k ∨ k = t.pkt)
    (hslot : ∀ a k, u.outgoing a = some k → t.outgoing a = some k ∨ a = p.seq ∧ k = t.pkt)
    (huv : u.uvq = t.uvq ∨ ∃ dest, u.uvq = t.uvq ++ [{ pkt := t.pkt, bufs := p.uvBufs t.pkt, dest := dest }]) :
    u.Mailed := by
  have hcases : ∀ {k}, k < t.pkt + 1 → k < t.pkt ∨ k = t.pkt := fun hk => Nat.lt_or_eq_of_le (Nat.le_of_lt_succ hk)
  have hbufsOf : ∀ k ≤ t.pkt, (u.pkts k).bufs = (t.pkts k).bufs := by
    intro k hk
    rcases Nat.lt_or_eq_of_le hk with hlt | rfl
    · exact (congrArg Packet.bufs (hother k hlt) :)
    · exact (congrArg Packet.bufs hself :).trans hbufs
  have hnone : (u.pkts (t.pkt + 1)).bufs = [] := (congrArg Packet.bufs hnext :)
  have hkind : (u.pkts t.pkt).header.type = t.pktHeaderFlag :=
    (congrArg (fun p => p.header.type) hself :).trans htype
  refine ⟨?_, fun k hk c hc => ?_, fun k hk hp => ?_, fun k hk => ?_, ?_, fun k hk hc => ?_, fun k hk => ?_,
    fun x hx => ?_, fun a k hk => ?_, ht.tail.number hpkt hw hq hflag (fun k hk =>
      (congrArg (fun p => p.header.type) (hother k hk) :)) hkind hbufsOf hnone⟩
  · rw [hq, hn]
    exact ht.waits
  · rw [hpkt] at hk
    rcases Nat.lt_or_eq_of_le hk with hlt | rfl
    · rw [hn]
      exact ht.known k (Nat.le_of_lt_succ hlt) c (hbufsOf k (Nat.le_of_lt_succ hlt) ▸ hc)
    · rw [hnone] at hc
      cases hc
  · rw [hpkt] at hk
    rcases Nat.lt_or_eq_of_le hk with hlt | rfl
    · rcases hcases hlt with hlt | rfl
      · rw [show (u.pkts k).header.dataOffset = (t.pkts k).header.dataOffset from
          (congrArg (fun p => p.header.dataOffset) (hother k hlt) :)]
        rw [show (u.pkts k).isMtuProbe = (t.pkts k).isMtuProbe from
          (congrArg Packet.isMtuProbe (hother k hlt) :)] at hp
        exact ht.clean k (Nat.le_of_lt hlt) hp
      · rw [show (u.pkts t.pkt).header.dataOffset = p.header.dataOffset from
          (congrArg (fun p => p.header.dataOffset) hself :)]
        exact hclean ((congrArg Packet.isMtuProbe hself :).symm.trans hp)
    · exact (congrArg (fun p => p.header.dataOffset) hnext :)
  · rw [hpkt]
    rcases hun k hk with hold | rfl
    · exact Nat.lt_succ_of_lt (ht.old k hold)
    · exact Nat.lt_succ_self _
  · rw [hpkt, hnone]
    rintro ⟨c, hc, -⟩
    cases hc
  · rw [hpkt] at hk
    rw [hbufsOf k (Nat.le_of_lt_succ hk)] at hc
    rcases hcases hk with hlt | rfl
    · rw [show (u.pkts k).header.type = (t.pkts k).header.type from
        (congrArg (fun p => p.header.type) (hother k hlt) :)]
      exact ht.data k hlt hc
    · rw [hkind]
      exact ht.fresh hc
  · rw [hpkt] at hk
    rcases hcases hk with hlt | rfl
    · rw [show (u.pkts k).header.seq = (t.pkts k).header.seq from
        (congrArg (fun p => p.header.seq) (hother k hlt) :),
        show (u.pkts k).seq = (t.pkts k).seq from (congrArg Packet.seq (hother k hlt) :)]
      exact ht.header k hlt
    · exact ((congrArg (fun p => p.header.seq) hself :).trans hheader).trans (congrArg Packet.seq hself :).symm
  · have hold : x ∈ t.uvq → x.pkt < u.pkt ∧ x.Of (u.pkts x.pkt) := by
      intro hx
      obtain ⟨hlt, hof⟩ := ht.held x hx
      unfold UvSend.Of
      rw [hpkt, hbufsOf x.pkt (Nat.le_of_lt hlt)]
      exact ⟨Nat.lt_succ_of_lt hlt, hof⟩
    rcases huv with heq | ⟨dest, heq⟩
    · exact hold (heq ▸ hx)
    · rw [heq] at hx
      rcases List.mem_append.mp hx with hx | hx
      · exact hold hx
      · rw [List.mem_singleton.mp hx, hpkt]
        exact ⟨Nat.lt_succ_self _, uvBufs_of p t.pkt dest (u.pkts t.pkt)
          ((hbufsOf t.pkt (Nat.le_refl _)).trans hbufs.symm)⟩
  · rcases hslot a k hk with hold | ⟨rfl, rfl⟩
    · rw [show (u.pkts k).seq = (t.pkts k).seq from
        (congrArg Packet.seq (hother k (ht.old k (.inr (.inr ⟨a, hold⟩)))) :)]
      exact ht.slot a k hold
    · exact (congrArg Packet.seq hself :)

/-- A packet is sent again, and libuv may hold it. -/
theorem Mailed.resend (ht : t.Mailed) {k : ℕ} (hk : k < t.pkt) (hun : u.Within t)
    (hmail : { u.mail with uvq := [] } = { t.mail with uvq := [] }) (huv : u.uvq = t.uvq ∨
      ∃ dest, u.uvq = t.uvq ++ [{ pkt := k, bufs := (u.pkts k).uvBufs k, dest := dest }]) : u.Mailed := by
  have hbase : Mailed { u with uvq := t.uvq } := by
    refine ht.congr ?_ ⟨hun.unacked, hun.slots⟩
    exact congrArg (fun x : Tx => { x with uvq := t.uvq }) hmail
  refine ⟨hbase.waits, hbase.known, hbase.clean, hbase.old, hbase.fresh, hbase.data, hbase.header, fun x hx => ?_,
    hbase.slot, hbase.tail.queue, hbase.tail.flag, hbase.tail.sent⟩
  rcases huv with heq | ⟨dest, heq⟩
  · exact hbase.held x (heq ▸ hx)
  · rw [heq] at hx
    rcases List.mem_append.mp hx with hx | hx
    · exact hbase.held x hx
    · rw [List.mem_singleton.mp hx]
      refine ⟨?_, uvBufs_of (u.pkts k) k dest (u.pkts k) rfl⟩
      rw [show u.pkt = t.pkt from (congrArg Tx.pkt hmail :)]
      exact hk

/-- A probe that is lost is one no more. -/
theorem Mailed.unprobe (ht : t.Mailed) (k : ℕ) : (t.setPkt k Packet.unprobeify).Mailed := by
  have hsame : ∀ j, ((t.setPkt k Packet.unprobeify).pkts j).bufs = (t.pkts j).bufs ∧
      ((t.setPkt k Packet.unprobeify).pkts j).header.type = (t.pkts j).header.type ∧
      ((t.setPkt k Packet.unprobeify).pkts j).header.seq = (t.pkts j).header.seq ∧
      ((t.setPkt k Packet.unprobeify).pkts j).seq = (t.pkts j).seq ∧
      (((t.setPkt k Packet.unprobeify).pkts j).isMtuProbe = (t.pkts j).isMtuProbe ∧
        ((t.setPkt k Packet.unprobeify).pkts j).header.dataOffset = (t.pkts j).header.dataOffset ∨
          ((t.setPkt k Packet.unprobeify).pkts j).header.dataOffset = 0) := by
    intro j
    by_cases hj : j = k
    · rw [hj, setPkt_self]
      exact ⟨rfl, rfl, rfl, rfl, .inr rfl⟩
    · rw [setPkt_of_ne hj]
      exact ⟨rfl, rfl, rfl, rfl, .inl ⟨rfl, rfl⟩⟩
  refine ⟨ht.waits, fun j hj c hc => ?_, fun j hj hp => ?_, ht.old, ?_, fun j hj hc => ?_, fun j hj => ?_,
    fun x hx => ?_, fun a j hj => ?_, ht.tail.queue, ht.tail.flag, fun j hj he => ?_⟩
  · exact ht.known j hj c ((hsame j).1 ▸ hc)
  · rcases (hsame j).2.2.2.2 with ⟨hprobe, hoff⟩ | hoff
    · rw [hoff]
      exact ht.clean j hj (hprobe ▸ hp)
    · exact hoff
  · rw [show ((t.setPkt k Packet.unprobeify).pkts (t.setPkt k Packet.unprobeify).pkt).bufs =
      (t.pkts t.pkt).bufs from (hsame t.pkt).1]
    exact ht.fresh
  · rw [(hsame j).1] at hc
    rw [(hsame j).2.1]
    exact ht.data j hj hc
  · rw [(hsame j).2.2.1, (hsame j).2.2.2.1]
    exact ht.header j hj
  · obtain ⟨hold, hof⟩ := ht.held x hx
    unfold UvSend.Of
    rw [(hsame x.pkt).1]
    exact ⟨hold, hof⟩
  · rw [(hsame j).2.2.2.1]
    exact ht.slot a j hj
  · obtain ⟨hnil, hbufs⟩ := ht.tail.sent j hj ((hsame j).2.1 ▸ he)
    exact ⟨hnil, fun i hi hi' => (hsame i).1.trans (hbufs i hi hi')⟩

theorem Unended.unprobe (ht : t.Unended) (k : ℕ) : (t.setPkt k Packet.unprobeify).Unended := by
  refine ⟨ht.queue, ht.flag, fun j hj => ?_⟩
  by_cases hjk : j = k
  · rw [hjk, setPkt_self]
    exact ht.sent k (hjk ▸ hj)
  · rw [setPkt_of_ne hjk]
    exact ht.sent j hj

theorem Settled.unprobe (t : Tx) (k : ℕ) : t.Settled (t.setPkt k Packet.unprobeify) := by
  refine ⟨Nat.le_refl _, fun j _ => ?_, fun j _ => ?_, fun j _ => ?_⟩ <;> by_cases hj : j = k
  · refine payload_congr ?_ fun _ _ => rfl
    rw [hj, setPkt_self]
    rfl
  · refine payload_congr ?_ fun _ _ => rfl
    rw [setPkt_of_ne hj]
  all_goals first
    | rw [hj, setPkt_self]; rfl
    | rw [setPkt_of_ne hj]

/-! ### Writing -/

/-- A buffer joins the write queue of a stream that has not ended. -/
theorem Mailed.newBuf (ht : t.Mailed) (hopen : t.Unended)
    (hw : ∀ b < t.nwbufs, (u.wbufs b).buf = (t.wbufs b).buf ∧ (u.wbufs b).isWriteEnd = (t.wbufs b).isWriteEnd)
    (hmail : { u.mail with wbufs := fun _ => {}, nwbufs := 0, writeQueue := [] } =
      { t.mail with wbufs := fun _ => {}, nwbufs := 0, writeQueue := [] })
    (hn : u.nwbufs = t.nwbufs + 1) (hq : u.writeQueue = t.writeQueue ++ [t.nwbufs])
    (hun : u.Within t) :
    u.Mailed ∧ t.Settled u ∧ ((u.wbufs t.nwbufs).isWriteEnd = false → u.Unended) := by
  have hsame : Tx.mail { u with wbufs := t.wbufs, nwbufs := t.nwbufs, writeQueue := t.writeQueue } = t.mail :=
    congrArg (fun x : Tx => { x with
      wbufs := fun b => (t.wbufs b).label, nwbufs := t.nwbufs, writeQueue := t.writeQueue }) hmail
  have hbase : Mailed { u with wbufs := t.wbufs, nwbufs := t.nwbufs, writeQueue := t.writeQueue } :=
    ht.congr hsame ⟨hun.unacked, hun.slots⟩
  have hunended : Unended { u with wbufs := t.wbufs, nwbufs := t.nwbufs, writeQueue := t.writeQueue } :=
    hopen.congr hsame
  have hold : ∀ b ∈ t.writeQueue, (u.wbufs b).isWriteEnd = false := fun b hb =>
    (hw b (ht.waits b hb)).2.trans (hopen.queue b hb)
  have hpkts : ∀ k, (u.pkts k).label = (t.pkts k).label := fun k =>
    (congrArg (fun x : Tx => x.pkts k) hmail :)
  refine ⟨⟨fun b hb => ?_, fun k hk c hc => ?_, hbase.clean, hbase.old, hbase.fresh, hbase.data,
    hbase.header, hbase.held, hbase.slot, fun l b r hl hb => ?_, fun hf => ?_, fun k hk he => ?_⟩,
    ⟨Nat.le_of_eq (congrArg Tx.pkt hmail :).symm, fun k hk => ?_,
    fun k _ => (congrArg (fun p => p.header.type) (hpkts k) :), fun k _ => (congrArg Packet.seq (hpkts k) :)⟩,
    fun hnew => ⟨fun b hb => ?_, hunended.flag, hunended.sent⟩⟩
  · rw [hq] at hb
    rw [hn]
    rcases List.mem_append.mp hb with hb | hb
    · exact Nat.lt_succ_of_lt (ht.waits b hb)
    · rw [List.mem_singleton.mp hb]
      exact Nat.lt_succ_self _
  · rw [hn]
    exact Nat.lt_succ_of_lt (hbase.known k hk c hc)
  · -- only the new buffer can be the end, and it is the last one
    rcases List.eq_nil_or_concat r with rfl | ⟨r', x, rfl⟩
    · rfl
    · rw [hq, List.concat_eq_append, ← List.cons_append, ← List.append_assoc] at hl
      have hmem : b ∈ t.writeQueue := by
        rw [(List.append_inj' hl rfl).1]
        exact List.mem_append_right l List.mem_cons_self
      rw [hold b hmem] at hb
      cases hb
  · exact absurd (hunended.flag.symm.trans hf) nofun
  · exact absurd ((hunended.sent k hk).symm.trans he) nofun
  · exact payload_congr (congrArg Packet.bufs (hpkts k) :) fun c hc =>
      (hw c.wbuf (ht.known k (Nat.le_of_lt hk) c hc)).1
  · rw [hq] at hb
    rcases List.mem_append.mp hb with hb | hb
    · exact hold b hb
    · rw [List.mem_singleton.mp hb]
      exact hnew

theorem Settled.trans {v : Tx} (h : t.Settled u) (h' : u.Settled v) : t.Settled v :=
  ⟨Nat.le_trans h.pkt h'.pkt,
    fun k hk => (h'.payload k (Nat.lt_of_lt_of_le hk h.pkt)).trans (h.payload k hk),
    fun k hk => (h'.type k (Nat.lt_of_lt_of_le hk h.pkt)).trans (h.type k hk),
    fun k hk => (h'.seq k (Nat.lt_of_lt_of_le hk h.pkt)).trans (h.seq k hk)⟩

theorem Mailed.queueBufs {w : ℕ} {isWriteEnd : Bool} : ∀ (bufs : List (List UInt8)) {t : Tx}, t.Mailed →
    bufs = [] ∨ t.Unended → (queueBufs w isWriteEnd bufs t).Mailed ∧ t.Settled (queueBufs w isWriteEnd bufs t) ∧
      (isWriteEnd = false → t.Unended → (queueBufs w isWriteEnd bufs t).Unended) ∧
      (queueBufs w isWriteEnd bufs t).seq = t.seq ∧ (queueBufs w isWriteEnd bufs t).pkt = t.pkt ∧
      (queueBufs w isWriteEnd bufs t).reused = t.reused
  | [], t, ht, _ => ⟨ht, .refl t, fun _ h => h, rfl, rfl, rfl⟩
  | buf :: rest, t, ht, hopen => by
    let u : Tx := { (t.setWbuf t.nwbufs fun _ =>
      { buf := buf, write := w, isWriteEnd := isWriteEnd && rest.isEmpty }).setWrite w
        (fun x => { x with size := x.size + buf.length }) with
      nwbufs := t.nwbufs + 1
      bytesQueued := t.bytesQueued + buf.length
      writesQueuedBytes := t.writesQueuedBytes + buf.length
      writeQueue := t.writeQueue ++ [t.nwbufs] }
    have hkeep : ∀ b < t.nwbufs, u.wbufs b = t.wbufs b := fun b hb =>
      Function.update_of_ne (Nat.ne_of_lt hb) ..
    have hself : (u.wbufs t.nwbufs).isWriteEnd = (isWriteEnd && rest.isEmpty) :=
      congrArg WriteBuf.isWriteEnd (Function.update_self t.nwbufs _ t.wbufs)
    obtain ⟨hu, hset, hunended⟩ := ht.newBuf (u := u) (hopen.resolve_left (List.cons_ne_nil buf rest))
      (fun b hb => ⟨congrArg WriteBuf.buf (hkeep b hb), congrArg WriteBuf.isWriteEnd (hkeep b hb)⟩) rfl rfl rfl
      ⟨fun _ h => h, fun _ _ h => h⟩
    have hrest : rest = [] ∨ u.Unended := by
      rcases rest with _ | ⟨x, rest⟩
      · exact .inl rfl
      · exact .inr (hunended (hself.trans (Bool.and_false isWriteEnd)))
    obtain ⟨hm, hs, hend, hseq⟩ := Mailed.queueBufs (w := w) rest hu hrest
    refine ⟨hm, hset.trans hs, fun he _ => hend he (hunended (hself.trans ?_)), hseq⟩
    rw [he, Bool.false_and]

theorem Mailed.queueWrite (ht : t.Mailed) (hopen : t.Unended) (bufs : List (List UInt8)) (onAck isWriteEnd : Bool) :
    (t.queueWrite bufs onAck isWriteEnd).Mailed ∧ t.Settled (t.queueWrite bufs onAck isWriteEnd) ∧
      (isWriteEnd = false → (t.queueWrite bufs onAck isWriteEnd).Unended) ∧
      (t.queueWrite bufs onAck isWriteEnd).seq = t.seq ∧ (t.queueWrite bufs onAck isWriteEnd).pkt = t.pkt ∧
      (t.queueWrite bufs onAck isWriteEnd).reused = t.reused :=
  have hnew : Mailed { t.setWrite t.nwrites fun _ => { isWriteEnd := isWriteEnd, onAck := onAck } with
      nwrites := t.nwrites + 1 } := ht.congr rfl ⟨fun _ h => h, fun _ _ h => h⟩
  have hunended : Unended { t.setWrite t.nwrites fun _ => { isWriteEnd := isWriteEnd, onAck := onAck } with
      nwrites := t.nwrites + 1 } := hopen.congr rfl
  have hbufs : _ ∧ _ := Mailed.queueBufs bufs hnew (.inr hunended)
  ⟨hbufs.1, ⟨hbufs.2.1.pkt, hbufs.2.1.payload, hbufs.2.1.type, hbufs.2.1.seq⟩,
    fun he => hbufs.2.2.1 he hunended, hbufs.2.2.2⟩

/-! ### What leaves -/

/-- What libuv holds of a packet is its header, padding and data. -/
theorem gather_of (t : Tx) {x : UvSend} {k : ℕ} (hx : x.pkt = k) (hof : x.Of (t.pkts k)) :
    ∃ n, t.gather x.bufs = (t.pkts k).header.encode ++ (List.replicate n 0 ++ t.payload k) ∧
      (x.bufs = (t.pkts k).uvBufs k → ((t.pkts k).isMtuProbe = false → (t.pkts k).header.dataOffset = 0) →
        (t.pkts k).header.dataOffset.toNat = n) := by
  obtain ⟨pad, hpad, hbufs⟩ := hof
  have hdata : ∀ l : List Chunk, (l.map UvBuf.data).flatMap t.bytesOf = l.flatMap fun c => t.bytesOf (.data c) :=
    fun l => List.flatMap_map ..
  have hgather : t.gather x.bufs = (t.pkts k).header.encode ++ (pad.flatMap t.bytesOf ++ t.payload k) := by
    unfold gather
    rw [hbufs, hx, List.cons_append, List.flatMap_cons, List.flatMap_append, hdata]
    rfl
  have hsame : x.bufs = (t.pkts k).uvBufs k → pad =
      if (t.pkts k).isMtuProbe then [.padding (t.pkts k).header.dataOffset.toNat] else [] := by
    intro heq
    rw [heq, hx] at hbufs
    exact List.append_cancel_right (List.cons.inj hbufs).2.symm
  rcases hpad with rfl | ⟨n, rfl⟩
  · refine ⟨0, hgather, fun heq hclean => ?_⟩
    have hnone := hsame heq
    split at hnone
    · cases hnone
    · next hprobe => rw [hclean (Bool.eq_false_iff.mpr hprobe)]; rfl
  · refine ⟨n, by rw [hgather]; simp [bytesOf], fun heq _ => ?_⟩
    have hone := hsame heq
    split at hone
    · cases hone
      rfl
    · cases hone

end

end Tx

/-! ### Packets that leave -/

theorem Packet.label_of_key {p q : Packet} (h : p.key = q.key) : p.label = q.label :=
  (congrArg Packet.label h :)

namespace Tx

variable {t : Tx} {k : ℕ}

theorem mail_launch (t : Tx) (k : ℕ) {p : Packet} (h : p.label = (t.pkts k).label) :
    (t.launch k p).mail = t.mail := by
  have hset : (t.setPkt k fun _ => { p with lost := false }).mail = t.mail := t.mail_setPkt k h
  rw [launch_eq]
  exact hset

theorem queueUv_self (t : Tx) (k : ℕ) (dest : Dest) :
    (t.queueUv k dest).pkts k = { t.pkts k with refCount := (t.pkts k).refCount + 1 } := Function.update_self ..

/-- libuv holds the packet as it is. -/
theorem queueUv_held (t : Tx) (k : ℕ) (dest : Dest) :
    { (t.queueUv k dest).mail with uvq := [] } = { t.mail with uvq := [] } ∧ (t.queueUv k dest).uvq =
      t.uvq ++ [{ pkt := k, bufs := ((t.queueUv k dest).pkts k).uvBufs k, dest := dest }] := by
  refine ⟨congrArg (fun x : Tx => { x with uvq := [] })
    (t.mail_setPkt k (f := fun p => { p with refCount := p.refCount + 1 }) rfl), ?_⟩
  rw [queueUv_self]
  rfl

/-- A packet that leaves carries its data. -/
theorem Mailed.carries (ht : t.Mailed) (hk : k < t.pkt) (torn : Prop) :
    t.Carries k (t.gather ((t.pkts k).uvBufs k)) torn := by
  obtain ⟨n, hgather, hoff⟩ := t.gather_of (x := ⟨k, (t.pkts k).uvBufs k, ⟨none, {}⟩, false⟩) rfl
    (uvBufs_of (t.pkts k) k _ (t.pkts k) rfl)
  exact ⟨hk, _, n, hgather, rfl, ht.header k hk, .inl (hoff rfl (ht.clean k (Nat.le_of_lt hk)))⟩

end Tx

/-- A datagram acknowledges nothing but what `P` and `Q` allow. -/
def Vouches (P : SeqNo → Prop) (Q : SeqNo × SeqNo → Prop) (d : List UInt8) : Prop :=
  ∀ h, parse d = some h → P h.ack ∧ ∀ r ∈ readSacks d UDX_HEADER_SIZE (nsackBlocks h d), Q r

theorem Vouches.of_encode {P : SeqNo → Prop} {Q : SeqNo × SeqNo → Prop} {h : Header} (hack : P h.ack)
    (hsack : hasFlag h.type UDX_HEADER_SACK = false) (l : List UInt8) : Vouches P Q (h.encode ++ l) := by
  intro h' hparse
  obtain rfl := Option.some.inj ((parse_encode h l).symm.trans hparse)
  refine ⟨hack, fun r hr => ?_⟩
  unfold nsackBlocks at hr
  rw [hsack] at hr
  cases hr

theorem Vouches.of_header {P : SeqNo → Prop} {Q : SeqNo × SeqNo → Prop} {h : Header} (hack : P h.ack)
    (hsack : hasFlag h.type UDX_HEADER_SACK = false) : Vouches P Q h.encode :=
  List.append_nil h.encode ▸ Vouches.of_encode hack hsack []

theorem Tx.Vouched.gather {P : SeqNo → Prop} {Q : SeqNo × SeqNo → Prop} {t : Tx} {k : ℕ} (ht : t.Vouched P)
    (hk : k < t.pkt) : Vouches P Q (t.gather ((t.pkts k).uvBufs k)) := by
  obtain ⟨n, hgather, -⟩ := t.gather_of (x := ⟨k, (t.pkts k).uvBufs k, ⟨none, {}⟩, false⟩) rfl
    (uvBufs_of (t.pkts k) k _ (t.pkts k) rfl)
  rw [show t.gather ((t.pkts k).uvBufs k) = _ from hgather]
  exact .of_encode (ht.acks k hk) (ht.plain k hk) _

/-- The packets after another one has left. -/
theorem NewPacket.posted {s t : Stream} (h : NewPacket s t) : ∃ p,
    (s.tx.pkts s.tx.pkt).Numbers s.toCore p ∧ t.tx.pkt = s.tx.pkt + 1 ∧
      (∀ k, k ≠ s.tx.pkt → k ≠ s.tx.pkt + 1 → (t.tx.pkts k).label = (s.tx.pkts k).label) ∧
      (t.tx.pkts s.tx.pkt).label = p.label ∧ (t.tx.pkts (s.tx.pkt + 1)).label = Packet.label {} ∧
      (t.tx.uvq = s.tx.uvq ∨ ∃ dest, t.tx.uvq =
        s.tx.uvq ++ [{ pkt := s.tx.pkt, bufs := p.uvBufs s.tx.pkt, dest := dest }]) ∧
      t.tx.writeQueue = s.tx.writeQueue ∧ t.tx.nwbufs = s.tx.nwbufs ∧ t.tx.wbufs = s.tx.wbufs ∧
      t.tx.outgoing = Function.update s.tx.outgoing s.tx.seq (some s.tx.pkt) ∧ t.tx.pktHeaderFlag = 0 ∧
      (∀ k < s.tx.pkt, (t.tx.pkts k).header.ack = (s.tx.pkts k).header.ack) ∧
      (t.tx.pkts s.tx.pkt).header.ack = p.header.ack := by
  obtain ⟨p, z, hp, -, -, hz, htx⟩ := h.tx
  have hlaunch : ∀ x, x = (s.tx.occupy s.tx.seq s.tx.pkt).launch s.tx.pkt p → x.pkt = s.tx.pkt ∧
      (∀ k, k ≠ s.tx.pkt → x.pkts k = s.tx.pkts k) ∧ x.pkts s.tx.pkt = { p with lost := false } ∧
      x.uvq = s.tx.uvq ∧ x.writeQueue = s.tx.writeQueue ∧ x.nwbufs = s.tx.nwbufs ∧ x.wbufs = s.tx.wbufs ∧
      x.outgoing = Function.update s.tx.outgoing s.tx.seq (some s.tx.pkt) := by
    rintro x rfl
    rw [Tx.launch_eq]
    exact ⟨rfl, fun k hk => Function.update_of_ne hk .., Function.update_self .., rfl, rfl, rfl, rfl, rfl⟩
  have hz' : z.pkt = s.tx.pkt ∧ (∀ k, k ≠ s.tx.pkt → z.pkts k = s.tx.pkts k) ∧
      (z.pkts s.tx.pkt).label = p.label ∧ (z.pkts s.tx.pkt).header = p.header ∧ (z.uvq = s.tx.uvq ∨ ∃ dest, z.uvq =
        s.tx.uvq ++ [{ pkt := s.tx.pkt, bufs := p.uvBufs s.tx.pkt, dest := dest }]) ∧
      z.writeQueue = s.tx.writeQueue ∧ z.nwbufs = s.tx.nwbufs ∧ z.wbufs = s.tx.wbufs ∧
      z.outgoing = Function.update s.tx.outgoing s.tx.seq (some s.tx.pkt) := by
    obtain ⟨hpkt, hother, hself, huv, hq, hn, hw, hout⟩ := hlaunch _ rfl
    rcases hz with rfl | rfl
    · exact ⟨hpkt, hother, by rw [hself]; rfl, by rw [hself], .inl huv, hq, hn, hw, hout⟩
    · generalize (s.tx.occupy s.tx.seq s.tx.pkt).launch s.tx.pkt p = x at hpkt hother hself huv hq hn hw hout ⊢
      refine ⟨hpkt, fun k hk => Eq.trans (Function.update_of_ne hk ..) (hother k hk), ?_, ?_,
        .inr ⟨⟨s.peer.socket, p.remoteAddr⟩, ?_⟩, hq, hn, hw, hout⟩
      · rw [Tx.queueUv_self, hself]
        rfl
      · rw [Tx.queueUv_self, hself]
      · rw [show (x.queueUv s.tx.pkt ⟨s.peer.socket, p.remoteAddr⟩).uvq = x.uvq ++ [_] from rfl, huv, hself]
        rfl
  obtain ⟨hpkt, hother, hself, hheader, huv, hq, hn, hw, hout⟩ := hz'
  have hkeep : ∀ k, k ≠ s.tx.pkt + 1 → t.tx.pkts k = z.pkts k := by
    intro k hk
    rw [htx]
    refine Tx.resetNextPacket_pkts_of_ne ?_
    rw [show z.advanceSeq.pkt = z.pkt from rfl, hpkt]
    exact hk
  refine ⟨p, hp, ?_, fun k hk hk' => ?_, ?_, ?_, ?_⟩
  · rw [htx, ← hpkt]
    rfl
  · rw [hkeep k hk', hother k hk]
  · rw [hkeep _ (Nat.ne_of_lt (Nat.lt_succ_self _)), hself]
  · rw [htx, ← hpkt]
    have hnext : (z.advanceSeq.resetNextPacket (udxMaxPayload s)).pkts (z.pkt + 1) =
        { streamOffset := z.bytesPacketized } := Function.update_self ..
    rw [hnext]
    rfl
  · rw [htx]
    refine ⟨huv, hq, hn, hw, hout, rfl, fun k hk => ?_, ?_⟩
    · rw [← htx, hkeep k (Nat.ne_of_lt (Nat.lt_succ_of_lt hk)), hother k (Nat.ne_of_lt hk)]
    · rw [← htx, hkeep _ (Nat.ne_of_lt (Nat.lt_succ_self _)), hheader]

/-! ### The stream -/

/-- The datagram that left. -/
def Entry.leaves : Entry → Option (List UInt8)
  | .wire _ _ d => some d
  | _ => none

/-- libuv sends what it holds of a packet that has changed meanwhile. -/
def Entry.torn : Entry → Bool
  | .event (.uvSent i) pre =>
    match pre.tx.uvq[i]? with
    | some u => !u.sent && u.bufs != (pre.tx.pkts u.pkt).uvBufs u.pkt
    | none => false
  | _ => false

/-- A datagram that is no packet: it has neither data nor the end of a stream. -/
def Dataless (kind : Kind) (d : List UInt8) : Prop :=
  (∀ k, kind ≠ .packet k) ∧ ∀ h, parse d = some h → hasFlag h.type UDX_HEADER_DATA_OR_END = false

theorem Dataless.of_encode {kind : Kind} (hk : ∀ k, kind ≠ .packet k) {h : Header}
    (hh : hasFlag h.type UDX_HEADER_DATA_OR_END = false) (l : List UInt8) : Dataless kind (h.encode ++ l) :=
  ⟨hk, fun h' hparse => by
    rw [parse_encode] at hparse
    exact Option.some.inj hparse ▸ hh⟩

theorem Dataless.of_header {kind : Kind} (hk : ∀ k, kind ≠ .packet k) {h : Header}
    (hh : hasFlag h.type UDX_HEADER_DATA_OR_END = false) : Dataless kind h.encode :=
  List.append_nil h.encode ▸ Dataless.of_encode hk hh []

/-- What the packets say, and what has left; `P` and `Q` hold of what is acknowledged. -/
structure Mailed (base : SeqNo) (P : SeqNo → Prop) (Q : SeqNo × SeqNo → Prop) (s : Stream) : Prop where
  tx : s.tx.Mailed
  numbers : s.st.dead = false → s.peer.relayed = false →
    s.tx.Sequenced base ∧ (s.tx.pkt < 2 ^ 32 → s.tx.reused = false)
  relays : s.peer.relayTo = true → s.peer.relayed = true
  copies : ∀ x ∈ s.io.copies, Dataless x.kind x.bytes ∧ Vouches P Q x.bytes
  timewait : ∀ w, s.io.timewait = some w → hasFlag w.header.type UDX_HEADER_DATA_OR_END = false ∧
    hasFlag w.header.type UDX_HEADER_SACK = false ∧ P w.header.ack
  unended : s.st.ending = false → s.tx.Unended
  wires : ∀ kind dest d, .wire kind dest d ∈ s.log → Vouches P Q d ∧ (Dataless kind d ∨
    ∃ k, kind = .packet k ∧ s.tx.Carries k d (∃ e ∈ s.log, e.torn = true))
  vouched : s.tx.Vouched P
  ack : P s.rx.ack
  tree : ∀ b ∈ s.rx.sackTree, Q (b.start, b.stop)

/-- What `Mailed` reads beside `Tx` and the log. -/
def Core.posts (c : Core) : List UvCopy × Option Timewait × Bool × Bool × Bool × SeqNo × List SackBlock :=
  (c.io.copies, c.io.timewait, c.peer.relayTo, c.peer.relayed, c.st.ending, c.rx.ack, c.rx.sackTree)

theorem fillSlice_log (b : ℕ) (s : Stream) : ∃ l, (fillSlice b s).log = l ++ s.log ∧
    ∀ kind dest d, .wire kind dest d ∉ l := by
  have hnote : ∀ (e : Entry) (x : Stream), (∀ kind dest d, e ≠ .wire kind dest d) →
      (∃ l, x.log = l ++ s.log ∧ ∀ kind dest d, .wire kind dest d ∉ l) →
      ∃ l, (x.note e).log = l ++ s.log ∧ ∀ kind dest d, .wire kind dest d ∉ l := by
    intro e x he ⟨l, hl, hnone⟩
    refine ⟨e :: l, congrArg (e :: ·) hl, fun k dest d hmem => ?_⟩
    rcases List.mem_cons.mp hmem with heq | hmem
    · exact he k dest d heq.symm
    · exact hnone k dest d hmem
  unfold fillSlice
  dsimp only
  split
  · unfold startData bindPacketRemote Stream.check
    dsimp only
    split
    · exact hnote _ _ nofun ⟨[], rfl, fun _ _ _ => List.not_mem_nil⟩
    · exact hnote _ _ nofun (hnote _ _ nofun ⟨[], rfl, fun _ _ _ => List.not_mem_nil⟩)
  · exact ⟨[], rfl, fun _ _ _ => List.not_mem_nil⟩

/-- A slice goes into the packet in construction, which then says DATA. -/
theorem fillSlice_mail (b : ℕ) (s : Stream) : ∃ flag,
    (hasFlag s.tx.pktHeaderFlag UDX_HEADER_DATA = true → hasFlag flag UDX_HEADER_DATA = true) ∧
      (0 < min s.tx.pktCapacity (s.tx.wbufs b).writesz → hasFlag flag UDX_HEADER_DATA = true) ∧
      hasFlag flag UDX_HEADER_END = hasFlag s.tx.pktHeaderFlag UDX_HEADER_END ∧
      hasFlag flag UDX_HEADER_SACK = hasFlag s.tx.pktHeaderFlag UDX_HEADER_SACK ∧
      (∀ k < s.tx.pkt, (fillSlice b s).tx.pkts k = s.tx.pkts k) ∧
      (fillSlice b s).tx.mail = Tx.mail
        { s.tx.packetize b (min s.tx.pktCapacity (s.tx.wbufs b).writesz) with pktHeaderFlag := flag } ∧
      (fillSlice b s).tx.Within s.tx := by
  have hor : hasFlag (s.tx.pktHeaderFlag ||| UDX_HEADER_DATA) UDX_HEADER_DATA = true := by
    rw [hasFlag_or]
    exact Bool.or_eq_true_iff.mpr (.inr (by decide))
  unfold fillSlice
  dsimp only
  split
  · have hcore := startData_core (s.withTx fun tx => tx.packetize b (min s.tx.pktCapacity (s.tx.wbufs b).writesz))
    have hbind := (s.tx.packetize b (min s.tx.pktCapacity (s.tx.wbufs b).writesz)).mail_setPkt s.tx.pkt
      (f := Packet.bindRemote s.peer) rfl
    have htx := congrArg Core.tx hcore
    refine ⟨_, fun _ => hor, fun _ => hor, hasFlag_or s.tx.pktHeaderFlag UDX_HEADER_DATA UDX_HEADER_END |>.trans
      (Bool.or_false _), hasFlag_or s.tx.pktHeaderFlag UDX_HEADER_DATA UDX_HEADER_SACK |>.trans
      (Bool.or_false _), fun k hk => ?_, ?_, ?_⟩
    · rw [htx]
      have hne := Nat.ne_of_lt hk
      exact (Function.update_of_ne hne ..).trans (Function.update_of_ne hne ..)
    · rw [htx]
      exact congrArg (fun x : Tx => { x with pktHeaderFlag := s.tx.pktHeaderFlag ||| UDX_HEADER_DATA }) hbind
    · rw [htx]
      exact ⟨fun _ hk => hk, fun _ _ hk => hk⟩
  · next hno =>
    refine ⟨s.tx.pktHeaderFlag, id, fun hlen => ?_, rfl, rfl, fun k hk => Function.update_of_ne (Nat.ne_of_lt hk) ..,
      rfl, fun _ hk => hk, fun _ _ hk => hk⟩
    have hno' : ¬(decide (0 < min s.tx.pktCapacity (s.tx.wbufs b).writesz) &&
      !hasFlag s.tx.pktHeaderFlag UDX_HEADER_DATA) = true := hno
    simpa [hlen] using hno'

namespace Mailed

variable {base : SeqNo} {P : SeqNo → Prop} {Q : SeqNo × SeqNo → Prop} {t u : Stream}

theorem mono {P' : SeqNo → Prop} {Q' : SeqNo × SeqNo → Prop} (h : Mailed base P Q t) (hP : ∀ a, P a → P' a)
    (hQ : ∀ r, Q r → Q' r) : Mailed base P' Q' t := by
  have hvouches : ∀ {d}, Vouches P Q d → Vouches P' Q' d := fun hv hd hparse =>
    ⟨hP _ (hv hd hparse).1, fun r hr => hQ r ((hv hd hparse).2 r hr)⟩
  exact ⟨h.tx, h.numbers, h.relays, fun x hx => (h.copies x hx).imp_right hvouches,
    fun w hw => (h.timewait w hw).imp_right (And.imp_right (hP _)), h.unended,
    fun kind dest d hd => (h.wires kind dest d hd).imp_left hvouches,
    ⟨h.vouched.flag, h.vouched.plain, fun k hk => hP _ (h.vouched.acks k hk)⟩, hP _ h.ack,
    fun b hb => hQ _ (h.tree b hb)⟩

section

variable (h : Mailed base P Q t)
include h

theorem step (htx : u.tx.Mailed) (hset : t.tx.Settled u.tx)
    (hnum : u.st.dead = false → u.peer.relayed = false → t.st.dead = false ∧ t.peer.relayed = false ∧
      (t.tx.Sequenced base → u.tx.Sequenced base ∧ (u.tx.pkt < 2 ^ 32 → t.tx.reused = false → u.tx.reused = false)))
    (hposts : u.toCore.posts = t.toCore.posts) (hopen : t.st.ending = false → t.tx.Unended → u.tx.Unended)
    (hvouched : u.tx.Vouched P)
    (hlog : ∃ l, u.log = l ++ t.log ∧ ∀ kind dest d, .wire kind dest d ∈ l → Vouches P Q d ∧
      ∃ k, kind = .packet k ∧ u.tx.Carries k d (∃ e ∈ u.log, e.torn = true)) : Mailed base P Q u := by
  have hto : u.peer.relayTo = t.peer.relayTo := (congrArg (fun x => x.2.2.1) hposts :)
  have hrelayed : u.peer.relayed = t.peer.relayed := (congrArg (fun x => x.2.2.2.1) hposts :)
  have hending : u.st.ending = t.st.ending := (congrArg (fun x => x.2.2.2.2.1) hposts :)
  have hack : u.rx.ack = t.rx.ack := (congrArg (fun x => x.2.2.2.2.2.1) hposts :)
  have htree : u.rx.sackTree = t.rx.sackTree := (congrArg (fun x => x.2.2.2.2.2.2) hposts :)
  obtain ⟨l, hl, hwires⟩ := hlog
  refine ⟨htx, fun hd hr => ?_, ?_, ?_, ?_, fun he => ?_, fun kind dest d hmem => ?_, hvouched, hack ▸ h.ack,
    htree ▸ h.tree⟩
  · obtain ⟨hlive, hfree, hseq⟩ := hnum hd hr
    obtain ⟨hs, hunused⟩ := h.numbers hlive hfree
    exact ⟨(hseq hs).1, fun hlt => (hseq hs).2 hlt (hunused (Nat.lt_of_le_of_lt hset.pkt hlt))⟩
  · rw [hto, hrelayed]
    exact h.relays
  · rw [show u.io.copies = t.io.copies from (congrArg Prod.fst hposts :)]
    exact h.copies
  · rw [show u.io.timewait = t.io.timewait from (congrArg (fun x => x.2.1) hposts :)]
    exact h.timewait
  · rw [hending] at he
    exact hopen he (h.unended he)
  · rw [hl] at hmem
    rcases List.mem_append.mp hmem with hnew | hold
    · exact (hwires kind dest d hnew).imp_right .inr
    · refine (h.wires kind dest d hold).imp_right fun hw => hw.imp_right fun ⟨k, hk, hcarries⟩ =>
        ⟨k, hk, hcarries.settled hset ?_⟩
      rintro ⟨e, he, htorn⟩
      exact ⟨e, by rw [hl]; exact List.mem_append_right l he, htorn⟩

/-- Nothing that the packets say changes, and no packet leaves. -/
theorem still (hmail : u.tx.mail = t.tx.mail)
    (hack : ∀ k, (u.tx.pkts k).header.ack = (t.tx.pkts k).header.ack) (hun : u.tx.Within t.tx)
    (hst : t.st.dead = true → u.st.dead = true) (hposts : u.toCore.posts = t.toCore.posts)
    (hlog : ∃ l, u.log = l ++ t.log ∧ ∀ kind dest d, .wire kind dest d ∉ l) : Mailed base P Q u := by
  have hset : t.tx.Settled u.tx := .of_mail hmail
  obtain ⟨l, hl, hnone⟩ := hlog
  refine h.step (h.tx.congr hmail hun) hset (fun hd hr => ⟨?_, ?_, fun hs => ?_⟩) hposts (fun _ hu => hu.congr hmail)
    (h.vouched.congr hmail hack) ⟨l, hl, fun kind dest d hmem => absurd hmem (hnone kind dest d)⟩
  · exact Bool.eq_false_iff.mpr fun hdead => absurd (hst hdead) (by simp [hd])
  · exact (congrArg (fun x => x.2.2.2.1) hposts :).symm.trans hr
  · exact hs.kept hset (congrArg Tx.seq hmail :) (congrArg Tx.pkt hmail :) (congrArg Tx.reused hmail :)

/-- `still`, where the queues of packets and the log stay too. -/
theorem quiet (htx : u.tx = t.tx) (hst : u.st.dead = t.st.dead) (hposts : u.toCore.posts = t.toCore.posts)
    (hlog : u.log = t.log) : Mailed base P Q u :=
  h.still (congrArg Tx.mail htx) (fun k => congrArg (fun x : Tx => (x.pkts k).header.ack) htx) (htx ▸ .refl _)
    (fun hd => hst.trans hd) hposts
    ⟨[], hlog, fun _ _ _ => List.not_mem_nil⟩

theorem note {e : Entry} (he : ∀ kind dest d, e ≠ .wire kind dest d) : Mailed base P Q (t.note e) :=
  h.still rfl (fun _ => rfl) (.refl _) id rfl ⟨[e], rfl, fun k dest d hmem =>
    he k dest d (List.mem_singleton.mp hmem).symm⟩

theorem check (a : Site) (p : Prop) [Decidable p] : Mailed base P Q (t.check a p) := by
  unfold Stream.check
  split
  · exact h
  · exact h.note nofun

theorem announce (on : Bool) (c : Callback) : Mailed base P Q (t.announce on c) := by
  unfold Stream.announce
  split
  · exact h.note nofun
  · exact h

/-! ### Copies -/

/-- A datagram that is no packet leaves. -/
theorem emit {k : Kind} {d : List UInt8} (hd : Dataless k d) (hv : Vouches P Q d) (dest : Dest) :
    Mailed base P Q (t.note (.wire k dest d)) := by
  refine ⟨h.tx, h.numbers, h.relays, h.copies, h.timewait, h.unended, fun kind dest' d' hmem => ?_, h.vouched,
    h.ack, h.tree⟩
  rcases List.mem_cons.mp hmem with heq | hold
  · cases heq
    exact ⟨hv, .inl hd⟩
  · refine (h.wires kind dest' d' hold).imp_right fun hw => hw.imp_right fun ⟨k, hk, hcarries⟩ =>
      ⟨k, hk, hcarries.settled (.refl _) ?_⟩
    rintro ⟨e, he, htorn⟩
    exact ⟨e, List.mem_cons_of_mem _ he, htorn⟩

theorem sendCopy (env : Env) {k : Kind} {d : List UInt8} (hd : Dataless k d) (hv : Vouches P Q d) (dest : Dest) :
    Mailed base P Q (sendCopy env k dest d t) := by
  have hhand : Mailed base P Q (t.note (.handed k dest)) := h.note nofun
  unfold Udx.sendCopy
  dsimp only
  split
  · exact (hhand.emit hd hv dest).quiet rfl rfl rfl rfl
  · split
    · refine ⟨hhand.tx, hhand.numbers, hhand.relays, fun x hx => ?_, hhand.timewait, hhand.unended, hhand.wires,
        hhand.vouched, hhand.ack, hhand.tree⟩
      rcases List.mem_append.mp hx with hx | hx
      · exact h.copies x hx
      · rw [List.mem_singleton.mp hx]
        exact ⟨hd, hv⟩
    · exact hhand.quiet rfl rfl rfl rfl
  · exact hhand.quiet rfl rfl rfl rfl

theorem sendProbe (env : Env) : Mailed base P Q (sendProbe env t) := by
  unfold Udx.sendProbe
  split
  · exact h
  · exact h.sendCopy env (k := .probe) (.of_header (by nofun)
      (by decide : hasFlag UDX_HEADER_HEARTBEAT UDX_HEADER_DATA_OR_END = false))
      (.of_header h.ack (by decide : hasFlag UDX_HEADER_HEARTBEAT UDX_HEADER_SACK = false)) _

/-! ### The send path -/

theorem aside (h' : Aside t u) : Mailed base P Q u := by
  obtain ⟨l, hl, hloose⟩ := h'.log
  refine h.still (congrArg Tx.mail h'.tx) (fun k => congrArg (fun x : Tx => (x.pkts k).header.ack) h'.tx)
    (h'.tx ▸ .refl _) ?_ (congrArg Core.posts h'.core :) ⟨l, hl, fun k dest d hmem => ?_⟩
  · rw [show u.st = t.st from (congrArg Core.st h'.core :)]
    exact id
  · exact absurd (hloose _ hmem) Bool.false_ne_true

theorem fillSlice {b : ℕ} (hb : b ∈ t.tx.writeQueue) : Mailed base P Q (fillSlice b t) := by
  have hposts : (Udx.fillSlice b t).toCore.posts = t.toCore.posts := by
    obtain ⟨f, w, c, x, n, hcore⟩ := fillSlice_core b t
    exact (congrArg Core.posts hcore :)
  obtain ⟨hst, -⟩ := fillSlice_st b t
  have hpeer : (Udx.fillSlice b t).peer.relayed = t.peer.relayed := (congrArg (fun x => x.2.2.2.1) hposts :)
  obtain ⟨flag, hkeep, hlen, hend, hsack, hpkts, hmail, hun⟩ := fillSlice_mail b t
  have hset : t.tx.Settled (Udx.fillSlice b t).tx := by
    refine Tx.Settled.trans ?_ (.of_mail hmail)
    have hother : ∀ k < t.tx.pkt, (t.tx.packetize b (min t.tx.pktCapacity (t.tx.wbufs b).writesz)).pkts k =
        t.tx.pkts k := fun k hk => Function.update_of_ne (Nat.ne_of_lt hk) ..
    have hwbufs := t.tx.mail_setWbuf b
      (f := fun w => { w with bytesInflight := w.bytesInflight + min t.tx.pktCapacity (t.tx.wbufs b).writesz }) rfl
    refine ⟨Nat.le_refl _, fun k hk => ?_, fun k hk => ?_, fun k hk => ?_⟩
    · exact Tx.payload_congr (congrArg Packet.bufs (hother k hk)) fun c _ =>
        (congrArg (fun x : Tx => (x.wbufs c.wbuf).buf) hwbufs :)
    · exact congrArg (fun p => p.header.type) (hother k hk)
    · exact congrArg Packet.seq (hother k hk)
  obtain ⟨l, hl, hnone⟩ := fillSlice_log b t
  refine h.step ((h.tx.slice hb _ hkeep hlen hend).congr hmail ⟨hun.unacked, hun.slots⟩) hset
    (fun hd hr => ⟨hst ▸ hd, hpeer ▸ hr, fun hs => ?_⟩) hposts (fun _ hu => (hu.slice b _ hend).congr hmail)
    (h.vouched.settled hset (congrArg Tx.pkt hmail :) ?_ fun k hk => hpkts k hk ▸ h.vouched.acks k hk)
    ⟨l, hl, fun kind dest d hmem => absurd hmem (hnone kind dest d)⟩
  · exact hs.kept hset (congrArg Tx.seq hmail :) (congrArg Tx.pkt hmail :) (congrArg Tx.reused hmail :)
  · rw [show (Udx.fillSlice b t).tx.pktHeaderFlag = flag from (congrArg Tx.pktHeaderFlag hmail :), hsack]
    exact h.vouched.flag

/-- The data of a packet leaves, and nothing of another one. -/
theorem newPacket (h' : NewPacket t u) : Mailed base P Q u := by
  obtain ⟨p, hp, hpkt, hother, hself, hnext, huv, hq, hn, hw, hout, hflag, hkept, hstamp⟩ := h'.posted
  have hold : ∀ k < t.tx.pkt, (u.tx.pkts k).label = (t.tx.pkts k).label := fun k hk =>
    hother k (Nat.ne_of_lt hk) (Nat.ne_of_lt (Nat.lt_succ_of_lt hk))
  have hposts : u.toCore.posts = t.toCore.posts := (congrArg Core.posts h'.core :)
  have hst : u.st = t.st := (congrArg Core.st h'.core :)
  have hclean : p.isMtuProbe = false → p.header.dataOffset = 0 := by
    intro hprobe
    rcases hp.probe with ⟨-, hoff⟩ | ⟨hyes, -⟩
    · exact hoff
    · rw [hprobe] at hyes
      cases hyes
  have hslot : ∀ a k, u.tx.outgoing a = some k → t.tx.outgoing a = some k ∨ a = t.tx.seq ∧ k = t.tx.pkt := by
    intro a k hk
    rw [hout] at hk
    by_cases ha : a = t.tx.seq
    · rw [ha, Function.update_self] at hk
      exact .inr ⟨ha, (Option.some.inj hk).symm⟩
    · exact .inl ((Function.update_of_ne ha ..).symm.trans hk)
  have hmailed : u.tx.Mailed := h.tx.number hp.bufs hp.type (hp.headerSeq.trans hp.seq.symm) hclean hpkt hold
    hself hnext hq hn hw hflag (fun k hk => ((Flights.newPacket h').unacked hk).imp_right And.left)
    (fun a k hk => (hslot a k hk).imp_right fun h => ⟨h.1.trans hp.seq.symm, h.2⟩) huv
  have hset : t.tx.Settled u.tx := by
    refine ⟨hpkt ▸ Nat.le_succ _, fun k hk => ?_, fun k hk => ?_, fun k hk => ?_⟩
    · exact Tx.payload_congr (congrArg Packet.bufs (hold k hk) :) fun c _ => by rw [hw]
    · exact (congrArg (fun p => p.header.type) (hold k hk) :)
    · exact (congrArg Packet.seq (hold k hk) :)
  have hvouched : u.tx.Vouched P := by
    refine ⟨hflag ▸ (by decide : hasFlag 0 UDX_HEADER_SACK = false), fun k hk => ?_, fun k hk => ?_⟩
    all_goals
      rw [hpkt] at hk
      rcases Nat.lt_or_eq_of_le (Nat.le_of_lt_succ hk) with hlt | rfl
    · rw [hset.type k hlt]
      exact h.vouched.plain k hlt
    · rw [show (u.tx.pkts t.tx.pkt).header.type = p.header.type from (congrArg (fun p => p.header.type) hself :),
        hp.type]
      exact h.vouched.flag
    · rw [hkept k hlt]
      exact h.vouched.acks k hlt
    · rw [hstamp, hp.headerAck]
      exact h.ack
  obtain ⟨l, hl, hlog⟩ := h'.log
  have hrelayed : u.peer.relayed = t.peer.relayed := (congrArg (fun x => x.2.2.2.1) hposts :)
  refine h.step hmailed hset (fun hd hr => ⟨hst ▸ hd, hrelayed.symm.trans hr, fun hs => ?_⟩)
    hposts (fun _ hu => hu.number hpkt hw hq hflag (fun k hk => (congrArg (fun p => p.header.type) (hold k hk) :))
      ((congrArg (fun p => p.header.type) hself :).trans hp.type)) hvouched ⟨l, hl, fun kind dest d hmem => ?_⟩
  · refine ⟨⟨?_, fun k hk => ?_⟩, fun hlt hused => ?_⟩
    · rw [h'.numbers.1, hpkt, hs.seq, nth_succ]
    · rw [hpkt] at hk
      rcases Nat.lt_or_eq_of_le (Nat.le_of_lt_succ hk) with hlt | rfl
      · exact (hset.seq k hlt).trans (hs.pkts k hlt)
      · exact ((congrArg Packet.seq hself :).trans hp.seq).trans hs.seq
    · rw [h'.numbers.2.2.2, hused, Bool.false_or, Option.isSome_eq_false_iff, Option.isNone_iff_eq_none]
      rcases hfree : t.tx.outgoing t.tx.seq with _ | k
      · rfl
      -- a packet with the number of this one is an older one
      have hk := h.tx.old k (.inr (.inr ⟨_, hfree⟩))
      have hseq : nth base k = nth base t.tx.pkt := (hs.pkts k hk).symm.trans ((h.tx.slot _ k hfree).trans hs.seq)
      have heq := nth_inj (by omega) (by omega) hseq
      omega
  · rcases hlog _ hmem with ⟨hk, -, hd⟩ | ⟨-, pre, heq, -⟩
    · have hnew : t.tx.pkt < u.tx.pkt := hpkt ▸ Nat.lt_succ_self _
      rw [hd]
      exact ⟨hvouched.gather hnew, t.tx.pkt, hk, hmailed.carries hnew _⟩
    · cases heq

theorem resent {k : ℕ} (hk : t.tx.Unacked k) (h' : Resent k t u) : Mailed base P Q u := by
  obtain ⟨p, rwnd, hkey, -, htx⟩ := h'.tx
  have hlabel : p.label = (t.tx.pkts k).label := (Packet.label_of_key hkey).trans rfl
  have hlaunch := t.tx.mail_launch k hlabel
  have hposts : u.toCore.posts = t.toCore.posts := (congrArg Core.posts h'.core :)
  have hst : u.st = t.st := (congrArg Core.st h'.core :)
  have hmail : { u.tx.mail with uvq := [] } = { t.tx.mail with uvq := [] } ∧ (u.tx.uvq = t.tx.uvq ∨
      ∃ dest, u.tx.uvq = t.tx.uvq ++ [{ pkt := k, bufs := (u.tx.pkts k).uvBufs k, dest := dest }]) := by
    rcases htx with htx | htx
    · rw [htx]
      exact ⟨congrArg (fun x : Tx => { x with uvq := [] }) hlaunch, .inl (congrArg Tx.uvq hlaunch :)⟩
    · obtain ⟨hheld, huv⟩ := (t.tx.launch k p).queueUv_held k ⟨t.peer.socket, (t.tx.pkts k).remoteAddr⟩
      rw [htx]
      refine ⟨hheld.trans (congrArg (fun x : Tx => { x with uvq := [] }) hlaunch),
        .inr ⟨⟨t.peer.socket, (t.tx.pkts k).remoteAddr⟩, huv.trans ?_⟩⟩
      rw [show (t.tx.launch k p).uvq = t.tx.uvq from (congrArg Tx.uvq hlaunch :)]
  have hacks : ∀ j, (u.tx.pkts j).header.ack = if j = k then t.rx.ack else (t.tx.pkts j).header.ack := by
    have hlaunched : ∀ j, ((t.tx.launch k p).pkts j).header.ack =
        if j = k then t.rx.ack else (t.tx.pkts j).header.ack := by
      intro j
      rw [Tx.launch_eq]
      show (Function.update t.tx.pkts k { p with lost := false } j).header.ack = _
      by_cases hj : j = k
      · rw [hj, Function.update_self, if_pos rfl]
        exact (congrArg (fun q => q.header.ack) hkey :)
      · rw [Function.update_of_ne hj, if_neg hj]
    intro j
    rcases htx with htx | htx
    · rw [htx]
      exact hlaunched j
    · rw [htx]
      exact (Tx.ack_setPkt (t.tx.launch k p) k (f := fun q => { q with refCount := q.refCount + 1 }) rfl j).trans
        (hlaunched j)
  have hout : u.tx.outgoing = t.tx.outgoing := by
    have hout' : (t.tx.launch k p).outgoing = t.tx.outgoing := by rw [Tx.launch_eq]
    rcases htx with htx | htx
    · exact (congrArg Tx.outgoing htx).trans hout'
    · exact (congrArg Tx.outgoing htx).trans hout'
  have hmailed : u.tx.Mailed := h.tx.resend (h.tx.old k hk) ⟨fun j hj => h'.unacked hk hj, fun a j hj => hout ▸ hj⟩
    hmail.1 hmail.2
  have hpkt : u.tx.pkt = t.tx.pkt := (congrArg Tx.pkt hmail.1 :)
  have hset : t.tx.Settled u.tx := by
    have hmail' : Tx.mail { u.tx with uvq := t.tx.uvq } = t.tx.mail :=
      congrArg (fun x : Tx => { x with uvq := t.tx.uvq }) hmail.1
    have hset' : t.tx.Settled { u.tx with uvq := t.tx.uvq } := .of_mail hmail'
    exact ⟨hset'.pkt, hset'.payload, hset'.type, hset'.seq⟩
  have hvouched : u.tx.Vouched P := by
    refine h.vouched.settled hset hpkt ?_ fun j hj => ?_
    · rw [show u.tx.pktHeaderFlag = t.tx.pktHeaderFlag from (congrArg Tx.pktHeaderFlag hmail.1 :)]
      exact h.vouched.flag
    · rw [hacks j]
      split
      · exact h.ack
      · exact h.vouched.acks j hj
  obtain ⟨l, hl, hlog⟩ := h'.log
  have hrelayed : u.peer.relayed = t.peer.relayed := (congrArg (fun x => x.2.2.2.1) hposts :)
  refine h.step hmailed hset (fun hd hr => ⟨hst ▸ hd, hrelayed.symm.trans hr, fun hs =>
    hs.kept hset (congrArg Tx.seq hmail.1 :) hpkt (congrArg Tx.reused hmail.1 :)⟩) hposts (fun _ hu => ?_)
    hvouched ⟨l, hl, fun kind dest d hmem => ?_⟩
  · have hmail' : Tx.mail { u.tx with uvq := t.tx.uvq } = t.tx.mail :=
      congrArg (fun x : Tx => { x with uvq := t.tx.uvq }) hmail.1
    exact ⟨(hu.congr hmail').queue, (hu.congr hmail').flag, (hu.congr hmail').sent⟩
  rcases hlog _ hmem with ⟨hj, -, hd⟩ | ⟨heq, -⟩
  · have hold : k < u.tx.pkt := hpkt ▸ h.tx.old k hk
    rw [hd]
    exact ⟨hvouched.gather hold, k, hj, hmailed.carries hold _⟩
  · cases heq

theorem unprobeIfProbe (k : ℕ) : Mailed base P Q (unprobeIfProbe k t) := by
  unfold Udx.unprobeIfProbe
  split
  · refine h.step (h.tx.unprobe k) (.unprobe t.tx k) (fun hd hr => ⟨hd, hr, fun hs =>
      hs.kept (.unprobe t.tx k) rfl rfl rfl⟩) rfl (fun _ hu => hu.unprobe k)
      (h.vouched.settled (.unprobe t.tx k) rfl h.vouched.flag fun j hj =>
        (t.tx.ack_setPkt k (f := Packet.unprobeify) rfl j).symm ▸ h.vouched.acks j hj)
      ⟨[], rfl, fun _ _ _ hmem => absurd hmem List.not_mem_nil⟩
  · exact h

theorem markLost {k : ℕ} (hk : t.tx.Unacked k) : Mailed base P Q (t.withTx fun tx => tx.markLost k) :=
  h.still (t.tx.mail_setPkt k (f := fun p => { p with lost := true }) rfl)
    (t.tx.ack_setPkt k (f := fun p => { p with lost := true }) rfl)
    ⟨fun _ hj => hk.of_markLost hj, fun _ _ hj => hj⟩ id rfl
    ⟨[], rfl, fun _ _ _ => List.not_mem_nil⟩

/-- The first buffer leaves the write queue, and may end the stream. -/
theorem shiftWrite {b : ℕ} {rest : List ℕ} (hq : t.tx.writeQueue = b :: rest) :
    Mailed base P Q (t.withTx fun tx => tx.shiftWrite b rest) := by
  have hset : t.tx.Settled (t.tx.shiftWrite b rest) :=
    ⟨Nat.le_refl _, fun _ _ => rfl, fun _ _ => rfl, fun _ _ => rfl⟩
  have hflag : (t.tx.shiftWrite b rest).pktHeaderFlag =
      if (t.tx.wbufs b).isWriteEnd then t.tx.pktHeaderFlag ||| UDX_HEADER_END else t.tx.pktHeaderFlag := rfl
  have htail : (t.tx.shiftWrite b rest).Tail := by
    refine ⟨fun l x r hl hx => ?_, fun hf => ?_, fun k hk he => ?_⟩
    · exact h.tx.tail.queue (b :: l) x r (hq.trans (congrArg (b :: ·) hl)) hx
    · rw [hflag] at hf
      split at hf
      · next hend => exact h.tx.tail.queue [] b rest hq hend
      · rw [h.tx.tail.flag hf] at hq
        cases hq
    · rw [(h.tx.tail.sent k hk he).1] at hq
      cases hq
  have hunended : t.tx.Unended → (t.tx.shiftWrite b rest).Unended := by
    intro hu
    refine ⟨fun x hx => hu.queue x (by rw [hq]; exact List.mem_cons_of_mem b hx), ?_, hu.sent⟩
    rw [hflag, hu.queue b (by rw [hq]; exact List.mem_cons_self), if_neg Bool.false_ne_true]
    exact hu.flag
  refine h.step ⟨fun x hx => ?_, h.tx.known, h.tx.clean, h.tx.old, fun hc => ?_, h.tx.data, h.tx.header, h.tx.held,
    h.tx.slot, htail⟩ hset (fun hd hr => ⟨hd, hr, fun hs => hs.kept hset rfl rfl rfl⟩) rfl (fun _ => hunended)
    (h.vouched.settled hset rfl ?_ h.vouched.acks) ⟨[], rfl, fun _ _ _ hmem => absurd hmem List.not_mem_nil⟩
  · exact h.tx.waits x (by rw [hq]; exact List.mem_cons_of_mem b hx)
  · have hdata := h.tx.fresh hc
    rw [show (t.withTx fun tx => tx.shiftWrite b rest).tx.pktHeaderFlag = _ from hflag]
    split
    · rw [hasFlag_or, hdata, Bool.true_or]
    · exact hdata
  · rw [show (t.withTx fun tx => tx.shiftWrite b rest).tx.pktHeaderFlag = _ from hflag]
    split
    · rw [hasFlag_or, h.vouched.flag]
      decide
    · exact h.vouched.flag

theorem sendMove (h' : SendMove t u) : Mailed base P Q u := by
  cases h' with
  | aside h' => exact h.aside h'
  | enter => exact h.check _ _
  | tlpEnter => exact h.check _ _
  | slice b rest _ hq => exact h.fillSlice (by rw [hq]; exact List.mem_cons_self)
  | recover h' =>
    exact h.quiet (congrArg Core.tx h'.core :) (congrArg (fun c => c.st.dead) h'.core :)
      (congrArg Core.posts h'.core :) h'.log
  | newPacket h' => exact h.newPacket h'
  | resend k rest hk h' => exact h.resent (.inr (.inl (by rw [hk]; exact List.mem_cons_self))) h'
  | reprobe k hk h' =>
    have hunlink : Mailed base P Q (t.withTx fun tx => tx.unlinkInflight k) := by
      refine h.still rfl (fun _ => rfl) ⟨fun j hj => ?_, fun _ _ hj => hj⟩ id rfl
        ⟨[], rfl, fun _ _ _ => List.not_mem_nil⟩
      rcases hj with hj | hj | hj
      · exact .inl (List.mem_of_mem_erase hj)
      · exact .inr (.inl hj)
      · exact .inr (.inr hj)
    exact hunlink.resent (.inr (.inr ⟨_, (tlpCandidate_spec hk).1⟩)) h'
  | lost k _ hk => exact (h.markLost (.inl hk)).unprobeIfProbe k
  | rearm fromNow =>
    unfold rearmRto rearmSavedRto
    split_ifs
    · exact h.quiet rfl rfl rfl rfl
    · exact h.quiet rfl rfl rfl rfl
    · have hcheck := h.check .rearmPending (t.tm.pendingTimer = .rackReo ∨ t.tm.pendingTimer = .tlp)
      exact hcheck.quiet rfl rfl rfl rfl
  | fullAck =>
    unfold timerFullAck startKeepalive
    dsimp only
    have hcheck : Mailed base P Q (t.check .fullAckQueues
        (t.tx.inflightQueue.length = 0 ∧ t.tx.retransmitQueue.length = 0)) := h.check _ _
    split
    · exact hcheck.quiet rfl rfl rfl rfl
    · split <;> exact hcheck.quiet rfl rfl rfl rfl
  | shift b rest _ hq => exact h.shiftWrite hq
  | prepare | lossTimer | reoTimer | deadline => exact h.quiet rfl rfl rfl rfl

theorem send (h' : SendPath t u) : Mailed base P Q u := by
  induction h' with
  | refl => exact h
  | tail _ hm ih => exact ih.sendMove hm

end

end Mailed

end Udx
