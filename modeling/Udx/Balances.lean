/-
# Byte accounting

In every run the books of the write buffers are kept, but for two steps that
leave a packet half counted, and for a sequence number given out while its
packet is outstanding. With the books kept, no assert of `on_bytes_acked` fails
and no subtraction there or in `send_new_packet` goes below zero.

Key definitions: `Entry.halfCounted`, `Counted`, `Tx.Countable`, `Tx.Balanced`.
Key theorems: `Loads.counted`, `Books.balances`, `Path.balanced`.
-/
import Udx.Books
import Udx.Drains

namespace Udx

open Serial Finset

/-! ### The steps -/

theorem Tx.ledger_of_load {t u : Tx} (h : t.load = u.load) : t.ledger = u.ledger := by
  have hload : ∀ x : Tx, x.load.ledger = x.ledger := fun _ => rfl
  rw [← hload t, h, hload u]

theorem Tx.ledger_setPkt (t : Tx) (k : ℕ) {f : Packet → Packet} (h : (f (t.pkts k)).page = (t.pkts k).page) :
    (t.setPkt k f).ledger = t.ledger := by
  have hpkts : (fun j => ((t.setPkt k f).pkts j).page) = fun j => (t.pkts j).page := by
    funext j
    by_cases hj : j = k
    · rw [hj, setPkt_self, h]
    · rw [setPkt_of_ne hj]
  exact congrArg (fun p => { t.ledger with pkts := p }) hpkts

/-- A slice goes into the packet in construction as `packetize` says. -/
theorem fillSlice_ledger (b : ℕ) (s : Stream) : (fillSlice b s).tx.ledger =
    (s.tx.packetize b (min s.tx.pktCapacity (s.tx.wbufs b).writesz)).ledger := by
  unfold fillSlice
  dsimp only
  split
  · have hcore := startData_core (s.withTx fun tx => tx.packetize b (min s.tx.pktCapacity (s.tx.wbufs b).writesz))
    have hbind := (s.tx.packetize b (min s.tx.pktCapacity (s.tx.wbufs b).writesz)).ledger_setPkt s.tx.pkt
      (f := Packet.bindRemote s.peer) rfl
    exact (congrArg (fun c => c.tx.ledger) hcore).trans hbind
  · rfl

/-- A new packet is numbered as `numberPkt` says. -/
theorem NewPacket.ledger {s t : Stream} (h : NewPacket s t) : t.tx.ledger = s.tx.numberPkt.ledger := by
  obtain ⟨p, hp, hload⟩ := h.load
  have hledger := congrArg Tx.ledger hload
  refine hledger.trans ?_
  have hpkts : (fun k => (Function.update (Function.update s.tx.load.pkts s.tx.pkt p.fixed) (s.tx.pkt + 1)
      (Packet.fixed { streamOffset := s.tx.bytesPacketized }) k).page) = fun k => (s.tx.numberPkt.pkts k).page := by
    funext k
    unfold Tx.numberPkt
    dsimp only
    by_cases hnext : k = s.tx.pkt + 1
    · rw [hnext, Function.update_self, Function.update_self]
      rfl
    · rw [Function.update_of_ne hnext, Function.update_of_ne hnext]
      by_cases hself : k = s.tx.pkt
      · rw [hself, Function.update_self, Function.update_self]
        show ({ seq := p.seq, bufs := p.bufs } : Packet) = _
        rw [hp.seq, hp.bufs]
        rfl
      · rw [Function.update_of_ne hself, Function.update_of_ne hself]
        rfl
  exact congrArg (fun f => { s.tx.numberPkt.ledger with pkts := f }) hpkts

/-- A packet is left half counted: the stream is destroyed before all slices
of the packet being acknowledged are counted, or a destroyed stream takes a
packet of which it counts the first slice only. -/
def Entry.halfCounted : Entry → Bool
  | .reached .destroySend pre => !pre.ctl.acking.isEmpty
  | .reached (.ackTake k) pre =>
    !pre.ctl.acking.isEmpty || pre.st.dead && decide (1 < (pre.tx.pkts k).bufs.length)
  | _ => false

theorem Entry.acking_of_destroySend {pre : Core} (h : (Entry.reached .destroySend pre).halfCounted = false) :
    pre.ctl.acking = [] := by
  simpa [Entry.halfCounted] using h

theorem Entry.acking_of_ackTake {k : ℕ} {pre : Core} (h : (Entry.reached (.ackTake k) pre).halfCounted = false) :
    pre.ctl.acking = [] ∧ (pre.st.dead = true → (pre.tx.pkts k).bufs.length ≤ 1) := by
  simpa [Entry.halfCounted] using h

/-- The books are kept, and a stream that is destroyed has no slices left to
count. -/
structure Counted (s : Stream) : Prop where
  books : s.tx.Books s.ctl.acking
  dead : s.st.dead = true → s.ctl.acking = []

theorem NewPacket.beside {s t : Stream} (h : NewPacket s t) : t.st = s.st ∧ t.ctl = s.ctl :=
  ⟨(congrArg Core.st h.core :), (congrArg Core.ctl h.core :)⟩

theorem fillSlice_st (b : ℕ) (s : Stream) : (fillSlice b s).st = s.st ∧ (fillSlice b s).ctl = s.ctl := by
  obtain ⟨f, w, c, h, n, hcore⟩ := fillSlice_core b s
  exact ⟨(congrArg Core.st hcore :), (congrArg Core.ctl hcore :)⟩

/-- A closed stream stays closed. -/
theorem Loads.opened {s t : Stream} (h : Loads s t) (ht : t.st.closed = false) : s.st.closed = false := by
  cases h with
  | same h => exact h.closed ▸ ht
  | close hprep hmtu hload hclosed => rw [hclosed] at ht; cases ht
  | destroy pre htm hmtu hload hctl hclosed => exact hclosed ▸ ht
  | finish | capacity | shift | prepare => exact ht
  | slice b => exact (fillSlice_st b s).1 ▸ ht
  | newPacket h => exact h.beside.1 ▸ ht
  | queueWrite bufs onAck isEnd hbufs h => exact h.closed ▸ ht
  | take c k hk h => exact h.closed ▸ ht
  | takeDead c k x rest pre hk hb h => exact h.closed ▸ ht
  | count c rest hc h => exact h.closed ▸ ht

namespace Counted

variable {s t : Stream}

theorem of_ledger (h : Counted s) (htx : t.tx.ledger = s.tx.ledger) (hacking : t.ctl.acking = s.ctl.acking)
    (hdead : t.st.dead = true → s.st.dead = true ∨ s.ctl.acking = []) : Counted t := by
  refine ⟨?_, fun hd => hacking.trans ((hdead hd).elim h.dead id)⟩
  rw [hacking]
  exact h.books.congr htx

/-- A step that changes the books of what is sent. -/
theorem of_books (h : Counted s) (htx : t.tx.Books s.ctl.acking) (hst : t.st.dead = s.st.dead)
    (hctl : t.ctl.acking = s.ctl.acking) : Counted t :=
  ⟨hctl ▸ htx, fun hd => hctl.trans (h.dead (hst.symm.trans hd))⟩

end Counted

/-- One step of a stream that is not closed. -/
theorem Loads.counted {s t : Stream} (h : Loads s t) (hs : Counted s) (hopen : t.st.closed = false)
    (hreused : t.tx.reused = false) (hlog : ∀ e ∈ t.log, e.halfCounted = false) : Counted t := by
  cases h with
  | same h =>
    exact hs.of_ledger (Tx.ledger_of_load h.load) h.acking fun hd => .inl (h.dead.symm.trans hd)
  | close hprep hmtu hload hclosed => rw [hclosed] at hopen; cases hopen
  | destroy pre htm hmtu hload hctl hclosed hdead hpre hmem =>
    have hnone : s.ctl.acking = [] := hpre ▸ Entry.acking_of_destroySend (hlog _ hmem)
    exact hs.of_ledger (Tx.ledger_of_load hload) (congrArg Control.acking hctl) fun _ => .inr hnone
  | finish _ hset =>
    have hnone : s.ctl.acking = [] := hset.elim hs.dead id
    exact hs.of_ledger rfl hnone.symm fun _ => .inr hnone
  | capacity | prepare => exact hs.of_ledger rfl rfl .inl
  | slice b rest _ hq =>
    obtain ⟨hst, hctl⟩ := fillSlice_st b s
    have hb : b < s.tx.nwbufs := hs.books.queue b (hq ▸ List.mem_cons_self)
    refine hs.of_books ?_ (congrArg Status.dead hst) (congrArg Control.acking hctl)
    exact (hs.books.packetize hb (Nat.min_le_right ..)).congr (fillSlice_ledger b s)
  | shift b rest _ hq => exact hs.of_books (hs.books.shift hq) rfl rfl
  | newPacket h =>
    obtain ⟨hst, hctl⟩ := h.beside
    obtain ⟨p, -, hload⟩ := h.load
    have hmark : t.tx.reused = (s.tx.reused || (s.tx.outgoing s.tx.seq).isSome) :=
      (congrArg Tx.reused hload :)
    have hfree : s.tx.outgoing s.tx.seq = none := by
      rw [hmark, Bool.or_eq_false_iff] at hreused
      exact Option.isNone_iff_eq_none.mp (Option.isSome_eq_false_iff.mp hreused.2)
    refine hs.of_books ?_ (congrArg Status.dead hst) (congrArg Control.acking hctl)
    exact (hs.books.numberPkt hfree).congr h.ledger
  | queueWrite bufs onAck isEnd hbufs h hacking hload =>
    exact hs.of_books ((hs.books.queueWrite bufs onAck isEnd).congr (Tx.ledger_of_load hload)) h.dead hacking
  | take c k hk h hload hacking hidle pre hpre hmem =>
    have hnone : s.ctl.acking = [] := hpre ▸ (Entry.acking_of_ackTake (hlog _ hmem)).1
    have hbooks := hs.books
    rw [hnone] at hbooks
    have htake := (hbooks.take hk).congr (Tx.ledger_of_load hload)
    refine ⟨hacking ▸ htake, fun hd => ?_⟩
    -- a destroyed stream takes a packet with no slices here
    rcases hidle with ⟨-, hlive⟩ | hempty
    · rw [h.dead, hlive] at hd
      cases hd
    · exact hacking.trans hempty
  | takeDead c k x rest pre hk hb h hdead hload hacking hpre hmem =>
    obtain ⟨hnone, hlast⟩ := Entry.acking_of_ackTake (hlog _ hmem)
    subst hpre
    have hbooks := hs.books
    rw [show s.ctl.acking = [] from hnone] at hbooks
    have htake := hbooks.take hk
    rw [hb] at htake
    have hrest : rest = [] := by
      have hlen := hlast hdead
      rw [show (s.toCore.tx.pkts k).bufs = x :: rest from hb, List.length_cons] at hlen
      exact List.eq_nil_of_length_eq_zero (by omega)
    refine ⟨hacking ▸ htake.ackBytes.congr (Tx.ledger_of_load hload), fun _ => hacking.trans hrest⟩
  | count c rest hc h hload hacking =>
    have hbooks := hs.books
    rw [hc] at hbooks
    refine ⟨hacking ▸ hbooks.ackBytes.congr (Tx.ledger_of_load hload), fun hd => ?_⟩
    have hnone := hs.dead (h.dead.symm.trans hd)
    rw [hc] at hnone
    cases hnone

/-! ### Balances -/

/-- A slice can be counted: no assert of `on_bytes_acked` fails, and nothing it
subtracts from is less. -/
structure Tx.Countable (t : Tx) (c : Chunk) : Prop where
  inflight : c.len ≤ (t.wbufs c.wbuf).bytesInflight
  wbuf : (t.wbufs c.wbuf).bytesAcked + c.len ≤ (t.wbufs c.wbuf).buf.length
  write : (t.writes (t.wbufs c.wbuf).write).bytesAcked + c.len ≤ (t.writes (t.wbufs c.wbuf).write).size
  queued : c.len ≤ t.writesQueuedBytes

/-- The counters of stream, writes and write buffers agree with the packets.
`acking` are the slices left of the packet that is being acknowledged. -/
structure Tx.Balanced (t : Tx) (acking : List Chunk) : Prop where
  packetized : t.bytesPacketized ≤ t.bytesQueued
  acknowledged : t.bytesAcked ≤ t.bytesPacketized
  queued : t.writesQueuedBytes = t.bytesQueued - t.bytesAcked
  slot : ∀ a k, t.outgoing a = some k → (t.pkts k).seq = a ∧ k < t.pkt
  inflight : ∀ b < t.nwbufs, (t.wbufs b).bytesInflight =
    t.outBytes b + sliceBytes b (t.pkts t.pkt).bufs + sliceBytes b acking
  fits : ∀ b < t.nwbufs, (t.wbufs b).bytesAcked + (t.wbufs b).bytesInflight ≤ (t.wbufs b).buf.length
  acked : ∀ w < t.nwrites, (t.writes w).bytesAcked =
    ∑ b ∈ range t.nwbufs, if (t.wbufs b).write = w then (t.wbufs b).bytesAcked else 0
  size : ∀ w < t.nwrites, (t.writes w).bytesAcked ≤ (t.writes w).size
  waiting : ∀ b ∈ t.writeQueue, b < t.nwbufs
  countable : ∀ c, (c ∈ acking ∨ c ∈ (t.pkts t.pkt).bufs ∨ ∃ a k, t.outgoing a = some k ∧ c ∈ (t.pkts k).bufs) →
    t.Countable c

namespace Tx.Books

variable {t : Tx} {acking : List Chunk}

/-- A slice of a packet of `outgoing` is in the sum over `outgoing`. -/
theorem len_le_outBytes (h : t.Books acking) {a : SeqNo} {k : ℕ} {c : Chunk} (hk : t.outgoing a = some k)
    (hc : c ∈ (t.pkts k).bufs) : c.len ≤ t.outBytes c.wbuf := by
  obtain ⟨hseq, hlt⟩ := h.slot a k hk
  refine Nat.le_trans (le_sliceBytes hc) ?_
  have hterm : (if t.outgoing (t.pkts k).seq = some k then sliceBytes c.wbuf (t.pkts k).bufs else 0) =
      sliceBytes c.wbuf (t.pkts k).bufs := if_pos (hseq ▸ hk)
  rw [← hterm]
  exact single_le_sum_of_canonicallyOrdered
    (f := fun k => if t.outgoing (t.pkts k).seq = some k then sliceBytes c.wbuf (t.pkts k).bufs else 0)
    (mem_range.mpr hlt)

theorem balances (h : t.Books acking) : t.Balanced acking := by
  have hpacketized : t.bytesPacketized ≤ t.bytesQueued := by
    rw [h.bytesPacketized, h.bytesQueued]
    exact sum_le_sum fun b hb => h.fits b (mem_range.mp hb)
  have hacked : t.bytesAcked ≤ t.bytesPacketized := by
    rw [h.bytesAcked, h.bytesPacketized]
    exact sum_le_sum fun b _ => Nat.le_add_right ..
  have hqueued := h.writesQueuedBytes
  refine ⟨hpacketized, hacked, by omega, h.slot, h.inflight, h.fits, h.acked, fun w hw => ?_, h.queue,
    fun c hc => ?_⟩
  · rw [h.acked w hw, h.size w hw]
    refine sum_le_sum fun b hb => ?_
    have hfit := h.fits b (mem_range.mp hb)
    split <;> omega
  · have hb : c.wbuf < t.nwbufs := by
      rcases hc with hc | hc | ⟨a, k, hk, hc⟩
      · exact h.taken c hc
      · exact h.known _ (Nat.le_refl _) c hc
      · exact h.known k (Nat.le_of_lt (h.slot a k hk).2) c hc
    have hlen : c.len ≤ (t.wbufs c.wbuf).bytesInflight := by
      have hin := h.inflight _ hb
      rcases hc with hc | hc | ⟨a, k, hk, hc⟩
      · have hle := le_sliceBytes hc
        omega
      · have hle := le_sliceBytes hc
        omega
      · have hle := h.len_le_outBytes hk hc
        omega
    have hfit := h.fits _ hb
    have hwrite := h.write_le hb
    have hleft := h.unacked_le hb
    exact ⟨hlen, by omega, by omega, by omega⟩

end Tx.Books

section

variable {env : Env} {cfg : Config} {s : Stream}

/-- In every run in which no packet is left half counted and no number is
reused, the counters of a stream that is not closed agree with the packets. -/
theorem Path.balanced (h : Path env (Move env) (Udx.init env cfg) s) (hopen : s.st.closed = false)
    (hreused : s.tx.reused = false) (hwhole : ∀ e ∈ s.log, e.halfCounted = false) :
    s.tx.Balanced s.ctl.acking := by
  have hinit : Counted (Udx.init env cfg) := by
    refine ⟨?_, fun _ => rfl⟩
    rw [init_tx]
    exact ⟨nofun, nofun, nofun, nofun, nofun, nofun, nofun, nofun, nofun, rfl, rfl, rfl, rfl⟩
  have hstep : ∀ {s t : Stream}, Atom env s t →
      (s.st.closed = false → s.tx.reused = false → (∀ e ∈ s.log, e.halfCounted = false) → Counted s) →
      t.st.closed = false → t.tx.reused = false → (∀ e ∈ t.log, e.halfCounted = false) → Counted t := by
    intro s t ha hs ht hr hlog
    have hloads := ha.loads env
    have hbefore : s.tx.reused = false := Bool.eq_false_iff.mpr fun hu => by
      rw [(ha.marks env).reused hu] at hr
      cases hr
    exact hloads.counted (hs (hloads.opened ht) hbefore fun e he => hlog e (ha.mem_log env he)) ht hr hlog
  exact (h.preserves (I := fun s => s.st.closed = false → s.tx.reused = false →
    (∀ e ∈ s.log, e.halfCounted = false) → Counted s) (fun hm => (hm.atoms env).preserves hstep)
    (fun hc => (hc.atoms env).preserves hstep) (fun _ _ _ => hinit) hopen hreused hwhole).books.balances

end

def bookConfig : Config := { localId := 1, seq := 0, ack := 0, now := 1 }

/-- Two writes of one byte each go out in one packet. -/
def sharedEvents : List Event :=
  [.call (.connect ⟨0, .inet⟩ 2 ⟨.inet, 1, [1, 2, 3, 4]⟩), .call (.write [[7]] true), .call (.write [[8]] true),
    .prepare]

/-- The ack of that packet. -/
def sharedAck : Event :=
  .recv ({ type := 0, dataOffset := 0, remoteId := 1, rwnd := 65535, seq := 0, ack := 1 } : Header).encode true

theorem Path.balanced_shared :
    let s := runEvents .free (sharedEvents ++ [sharedAck]) (Udx.init .free bookConfig)
    s.tx.bytesAcked = 2 ∧ s.tx.Balanced s.ctl.acking :=
  ⟨by decide +kernel, (Reach.runEvents .init (sharedEvents ++ [sharedAck])).path.balanced (by decide +kernel)
    (by decide +kernel) (by decide +kernel)⟩

/-- The socket does not take the second datagram at once. -/
def Env.filled : Env := { Env.free with trySend := fun i => if i = 1 then .again else .sent }

/-- A callback that destroys the stream in `on_ack`. -/
def destroyOnAck : Hook := fun c s =>
  match c with
  | .ack .. => call .filled Hook.quiet .destroy s
  | _ => s

theorem destroyOnAck_layered : Layered .filled destroyOnAck := by
  refine .reacts .quiet fun c s => ?_
  cases c with
  | ack => exact .single ⟨.destroy, rfl⟩
  | _ => exact .refl

/-- The second write's byte is in no packet then, and still counts as in
flight: the stream is not closed yet. -/
theorem Path.balanced_destroyed : ∃ s, Path .filled (Move .filled) (Udx.init .filled bookConfig) s ∧
    s.st.closed = false ∧ s.tx.reused = false ∧ s.ctl.acking = [] ∧ (s.tx.wbufs 1).bytesInflight = 1 ∧
    (∀ k < s.tx.pkt, s.tx.outgoing (s.tx.pkts k).seq = none) ∧ (s.tx.pkts s.tx.pkt).bufs = [] ∧
    ¬ s.tx.Balanced s.ctl.acking := by
  have hreach : Reach .filled bookConfig (step .filled destroyOnAck sharedAck
      (runEvents .filled sharedEvents (Udx.init .filled bookConfig))) :=
    .step sharedAck (Reach.runEvents .init sharedEvents) destroyOnAck_layered
  refine ⟨_, hreach.path, by decide +kernel, by decide +kernel, by decide +kernel, by decide +kernel,
    by decide +kernel, by decide +kernel, fun h => ?_⟩
  have hin := h.inflight 1 (by decide +kernel)
  revert hin
  decide +kernel

end Udx
