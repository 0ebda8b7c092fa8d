/-
# What the steps do to what is sent

Packets, write buffers and the byte counters, without the queues the packets
are in, the sequence numbers and the stamps a packet gets when it is sent
(`Tx.load`). A step of the sender leaves the load alone or does one of a few
things to it, which `Loads` lists: it fills the packet in construction,
numbers it, queues a write, takes a packet that is acknowledged, counts a
slice of it. What is so of the load in every run is proved from this list.

Key definitions: `Packet.fixed`, `Tx.load`, `LoadKept`, `Loads`.
Key theorems: `NewPacket.load`, `SendMove.loads`, `Atom.loads`.
-/
import Udx.Logs

namespace Udx

open Serial

/-! ### The load -/

/-- What a packet keeps once it has its number. -/
def Packet.fixed (p : Packet) : Packet :=
  { seq := p.seq
    size := p.size
    remoteAddr := p.remoteAddr
    remoteAddrLen := p.remoteAddrLen
    remoteId := p.remoteId
    streamOffset := p.streamOffset
    header := { p.header with dataOffset := 0, rwnd := 0, ack := 0 }
    nwbufsCapacity := p.nwbufsCapacity
    bufs := p.bufs }

/-- Packets, buffers and counters, without queues and sequence numbers. -/
def Tx.load (t : Tx) : Tx :=
  { t with
    seq := 0, remoteAcked := 0, sacks := 0, outgoingLive := true, inflightQueue := []
    retransmitQueue := [], inflight := 0, pkts := fun k => (t.pkts k).fixed, uvq := [], span := 0 }

namespace Tx

variable (t : Tx) (k : ℕ)

theorem load_setPkt {f : Packet → Packet} (h : (f (t.pkts k)).fixed = (t.pkts k).fixed) :
    (t.setPkt k f).load = t.load := by
  have hpkts : (fun j => ((t.setPkt k f).pkts j).fixed) = fun j => (t.pkts j).fixed := by
    funext j
    by_cases hj : j = k
    · rw [hj, setPkt_self, h]
    · rw [setPkt_of_ne hj]
  exact congrArg (fun p => { t.load with pkts := p }) hpkts

theorem load_launch {p : Packet} (h : p.fixed = (t.pkts k).fixed) : (t.launch k p).load = t.load := by
  have hset : (t.setPkt k fun _ => { p with lost := false }).load = t.load := t.load_setPkt k h
  rw [launch_eq]
  exact hset

theorem load_queueUv (dest : Dest) : (t.queueUv k dest).load = t.load :=
  t.load_setPkt k (f := fun p => { p with refCount := p.refCount + 1 }) rfl

theorem load_markLost : (t.markLost k).load = t.load :=
  t.load_setPkt k (f := fun p => { p with lost := true }) rfl

theorem load_derefPacket : (t.derefPacket k).load = t.load :=
  t.load_setPkt k (f := fun p => { p with refCount := p.refCount - 1 }) rfl

end Tx

theorem Packet.fixed_of_key {p q : Packet} (h : p.key = q.key) : p.fixed = q.fixed := by
  have hfixed : ∀ r : Packet, r.key.fixed = r.fixed := fun _ => rfl
  rw [← hfixed p, h, hfixed q]

theorem Resent.load {k : ℕ} {s t : Stream} (h : Resent k s t) : t.tx.load = s.tx.load := by
  obtain ⟨p, rwnd, hp, -, htx⟩ := h.tx
  have hfixed : p.fixed = (s.tx.pkts k).fixed := (Packet.fixed_of_key hp).trans rfl
  have hlaunch := s.tx.load_launch k hfixed
  rcases htx with htx | htx
  · rw [htx, hlaunch]
  · rw [htx, Tx.load_queueUv, hlaunch]

theorem unprobeIfProbe_load (k : ℕ) (s : Stream) : (unprobeIfProbe k s).tx.load = s.tx.load := by
  unfold unprobeIfProbe
  split
  · exact s.tx.load_setPkt k (f := Packet.unprobeify) rfl
  · rfl

/-- The packet in construction is numbered, and an empty one takes its place. -/
theorem NewPacket.load {s t : Stream} (h : NewPacket s t) :
    ∃ p, (s.tx.pkts s.tx.pkt).Numbers s.toCore p ∧ t.tx.load = { s.tx.load with
      outgoing := Function.update s.tx.outgoing s.tx.seq (some s.tx.pkt)
      reused := s.tx.reused || (s.tx.outgoing s.tx.seq).isSome
      pkts := Function.update (Function.update s.tx.load.pkts s.tx.pkt p.fixed) (s.tx.pkt + 1)
        (Packet.fixed { streamOffset := s.tx.bytesPacketized })
      pkt := s.tx.pkt + 1
      pktCapacity := udxMaxPayload s
      pktHeaderFlag := 0 } := by
  obtain ⟨p, z, hp, -, -, hz, htx⟩ := h.tx
  refine ⟨p, hp, ?_⟩
  have hlaunch : ((s.tx.occupy s.tx.seq s.tx.pkt).launch s.tx.pkt p).load = { s.tx.load with
      outgoing := Function.update s.tx.outgoing s.tx.seq (some s.tx.pkt)
      reused := s.tx.reused || (s.tx.outgoing s.tx.seq).isSome
      pkts := Function.update s.tx.load.pkts s.tx.pkt p.fixed } := by
    rw [Tx.launch_eq]
    have hpkts : (fun j => (Function.update (s.tx.occupy s.tx.seq s.tx.pkt).pkts s.tx.pkt
        { p with lost := false } j).fixed) = Function.update s.tx.load.pkts s.tx.pkt p.fixed := by
      funext j
      by_cases hj : j = s.tx.pkt
      · rw [hj, Function.update_self, Function.update_self]
        rfl
      · rw [Function.update_of_ne hj, Function.update_of_ne hj]
        rfl
    exact congrArg (fun f => { (s.tx.occupy s.tx.seq s.tx.pkt).load with pkts := f }) hpkts
  have hzload : z.load = ((s.tx.occupy s.tx.seq s.tx.pkt).launch s.tx.pkt p).load := by
    rcases hz with rfl | rfl
    · rfl
    · exact Tx.load_queueUv ..
  have hreset : ∀ (x : Tx) (n : ℕ), (x.advanceSeq.resetNextPacket n).load = { x.load with
      pkts := Function.update x.load.pkts (x.pkt + 1) (Packet.fixed { streamOffset := x.bytesPacketized })
      pkt := x.pkt + 1
      pktCapacity := n
      pktHeaderFlag := 0 } := by
    intro x n
    have hpkts : (fun j => ((x.advanceSeq.resetNextPacket n).pkts j).fixed) =
        Function.update x.load.pkts (x.pkt + 1) (Packet.fixed { streamOffset := x.bytesPacketized }) := by
      funext j
      by_cases hj : j = x.pkt + 1
      · have hself : (x.advanceSeq.resetNextPacket n).pkts (x.pkt + 1) =
            { streamOffset := x.bytesPacketized } := Function.update_self ..
        rw [hj, hself, Function.update_self]
      · rw [Function.update_of_ne hj]
        exact congrArg Packet.fixed (Tx.resetNextPacket_pkts_of_ne (t := x.advanceSeq) hj)
    exact congrArg (fun f => { x.load with
      pkts := f, pkt := x.pkt + 1, pktCapacity := n, pktHeaderFlag := 0 }) hpkts
  have hpkt : z.pkt = s.tx.pkt := (congrArg Tx.pkt (hzload.trans hlaunch) :)
  have hpack : z.bytesPacketized = s.tx.bytesPacketized :=
    (congrArg Tx.bytesPacketized (hzload.trans hlaunch) :)
  rw [htx, hreset, hzload, hlaunch, hpkt, hpack]

/-- The packets after it. -/
theorem NewPacket.packets {s t : Stream} (h : NewPacket s t) :
    ∃ p, (s.tx.pkts s.tx.pkt).Numbers s.toCore p ∧ t.tx.pkt = s.tx.pkt + 1 ∧
      (t.tx.pkts s.tx.pkt).fixed = p.fixed ∧
      (t.tx.pkts (s.tx.pkt + 1)).fixed = Packet.fixed { streamOffset := s.tx.bytesPacketized } ∧
      ∀ k, k ≠ s.tx.pkt + 1 → k ≠ s.tx.pkt → (t.tx.pkts k).fixed = (s.tx.pkts k).fixed := by
  obtain ⟨p, hp, hload⟩ := h.load
  have hpkts : ∀ k, (t.tx.pkts k).fixed = Function.update (Function.update s.tx.load.pkts s.tx.pkt
      p.fixed) (s.tx.pkt + 1) (Packet.fixed { streamOffset := s.tx.bytesPacketized }) k := fun k =>
    (congrArg (fun x : Tx => x.pkts k) hload :)
  refine ⟨p, hp, (congrArg Tx.pkt hload :), ?_, ?_, fun k hnext hk => ?_⟩
  · rw [hpkts, Function.update_of_ne (by omega), Function.update_self]
  · rw [hpkts, Function.update_self]
  · rw [hpkts, Function.update_of_ne hnext, Function.update_of_ne hk]
    rfl

theorem NewPacket.sound {s t : Stream} (h : NewPacket s t) (hs : s.mtu.Sound) : t.mtu.Sound := by
  obtain ⟨p, z, -, -, ⟨hm, -⟩ | ⟨hm, -⟩, -⟩ := h.tx
  · rw [hm]
    exact hs
  · rw [hm]
    exact ⟨hs.mtu, hs.probeSize, hs.max⟩

/-! ### The steps -/

/-- The packets alone, without what is outstanding and the write buffers. -/
def Tx.packing (t : Tx) : Tx :=
  { t.load with
    outgoing := fun _ => none, writeQueue := [], wbufs := fun _ => {}, nwbufs := 0
    writes := fun _ => {}, nwrites := 0, bytesQueued := 0, bytesPacketized := 0, bytesAcked := 0
    writesQueuedBytes := 0 }

theorem Tx.packing_of_load {t u : Tx} (h : t.load = u.load) : t.packing = u.packing := by
  unfold Tx.packing
  rw [h]

theorem queueWrite_packing (bufs : List (List UInt8)) (onAck isEnd : Bool) (t : Tx) :
    (t.queueWrite bufs onAck isEnd).packing = t.packing := by
  have hpack : ∀ x : Tx, x.packing = x.unqueued.packing := fun _ => rfl
  rw [hpack, queueWrite_unqueued, ← hpack]

theorem Tx.outgoing_of_load {t u : Tx} (h : t.load = u.load) : t.outgoing = u.outgoing :=
  (congrArg Tx.outgoing h :)

/-- The prepare handle is not started, the MTU stays sound, and the stream
does not die. -/
structure Aligned (s t : Stream) : Prop where
  prepare : t.tm.pendingPacketPrepare = true → s.tm.pendingPacketPrepare = true
  mtu : s.mtu.Sound → t.mtu.Sound
  dead : t.st.dead = s.st.dead
  closed : t.st.closed = s.st.closed

/-- Nothing of the load changes. -/
structure LoadKept (s t : Stream) : Prop extends Aligned s t where
  load : t.tx.load = s.tx.load
  acking : t.ctl.acking = s.ctl.acking

/-- The bytes of slice `c` are counted as acknowledged. -/
def Tx.ackBytes (t : Tx) (c : Chunk) : Tx :=
  { t with bytesAcked := t.bytesAcked + c.len }.countBytes c.wbuf c.len false

/-- What a slice does to the packet in construction. -/
theorem fillSlice_packet (b : ℕ) (s : Stream) :
    let len := min s.tx.pktCapacity (s.tx.wbufs b).writesz
    (fillSlice b s).tx.pktCapacity = s.tx.pktCapacity - len ∧
      (fillSlice b s).tx.wbufs = (s.tx.packetize b len).wbufs ∧
      (fillSlice b s).tx.pktHeaderFlag =
        if 0 < len && !hasFlag s.tx.pktHeaderFlag UDX_HEADER_DATA then
          s.tx.pktHeaderFlag ||| UDX_HEADER_DATA else s.tx.pktHeaderFlag := by
  unfold fillSlice
  dsimp only
  split
  · next h =>
    have hdata : (decide (0 < min s.tx.pktCapacity (s.tx.wbufs b).writesz) &&
        !hasFlag s.tx.pktHeaderFlag UDX_HEADER_DATA) = true := h
    have hcore := startData_core
      (s.withTx fun tx => tx.packetize b (min s.tx.pktCapacity (s.tx.wbufs b).writesz))
    rw [if_pos hdata]
    exact ⟨(congrArg (fun c => c.tx.pktCapacity) hcore :), (congrArg (fun c => c.tx.wbufs) hcore :),
      (congrArg (fun c => c.tx.pktHeaderFlag) hcore :)⟩
  · next h =>
    have hdata : ¬(decide (0 < min s.tx.pktCapacity (s.tx.wbufs b).writesz) &&
        !hasFlag s.tx.pktHeaderFlag UDX_HEADER_DATA) = true := h
    rw [if_neg hdata]
    exact ⟨rfl, rfl, rfl⟩

/-- What it leaves alone. -/
theorem fillSlice_beside (b : ℕ) (s : Stream) :
    (fillSlice b s).tx.pkt = s.tx.pkt ∧
      (∀ k, k ≠ s.tx.pkt → (fillSlice b s).tx.pkts k = s.tx.pkts k) ∧
      (fillSlice b s).tm = s.tm ∧ (fillSlice b s).mtu = s.mtu := by
  have hpack : ∀ len k, k ≠ s.tx.pkt → (s.tx.packetize b len).pkts k = s.tx.pkts k := fun len k hk =>
    Function.update_of_ne hk ..
  obtain ⟨f, w, c, h, n, hcore⟩ := fillSlice_core b s
  refine ⟨(congrArg (fun x => x.tx.pkt) hcore :), ?_, (congrArg Core.tm hcore :), (congrArg Core.mtu hcore :)⟩
  unfold fillSlice
  dsimp only
  split
  · intro k hk
    have hstart := startData_core (s.withTx fun tx => tx.packetize b (min s.tx.pktCapacity (s.tx.wbufs b).writesz))
    refine (congrArg (fun x => x.tx.pkts k) hstart :).trans ((Function.update_of_ne hk ..).trans ?_)
    exact hpack _ k hk
  · exact hpack _

/-- What the steps of the sender do to the load. -/
inductive Loads : Stream → Stream → Prop
  | same {s t : Stream} (h : LoadKept s t) : Loads s t
  | close {s t : Stream} (hprep : t.tm.pendingPacketPrepare = true → s.tm.pendingPacketPrepare = true)
    (hmtu : s.mtu.Sound → t.mtu.Sound) (hload : t.tx.packing = s.tx.packing)
    (hclosed : t.st.closed = true) : Loads s t
  | destroy {s t : Stream} (pre : Core) (htm : t.tm = s.tm) (hmtu : t.mtu = s.mtu)
    (hload : t.tx.load = s.tx.load) (hctl : t.ctl = s.ctl) (hclosed : t.st.closed = s.st.closed)
    (hdead : t.st.dead = true) (hpre : pre.ctl = s.ctl) (hmem : .reached .destroySend pre ∈ t.log) : Loads s t
  | finish (s : Stream) (hset : s.st.dead = true ∨ s.ctl.acking = []) : Loads s (finishEvent s)
  | capacity (s : Stream) (hdata : hasFlag s.tx.pktHeaderFlag UDX_HEADER_DATA = false) :
    Loads s (s.withTx fun tx => { tx with pktCapacity := udxMaxPayload s })
  | slice (b : ℕ) (rest : List ℕ) (s : Stream) (hq : s.tx.writeQueue = b :: rest)
    (hcap : s.tx.pktCapacity ≠ 0) : Loads s (fillSlice b s)
  | shift (b : ℕ) (rest : List ℕ) (s : Stream) (hq : s.tx.writeQueue = b :: rest)
    (hfull : (s.tx.wbufs b).bytesAcked + (s.tx.wbufs b).bytesInflight = (s.tx.wbufs b).buf.length) :
    Loads s (s.withTx fun tx => tx.shiftWrite b rest)
  | prepare (s : Stream) (hdata : hasFlag s.tx.pktHeaderFlag UDX_HEADER_DATA = true) :
    Loads s (setPrepare s)
  | newPacket {s t : Stream} (h : NewPacket s t) (hc : s.tx.complete ∨
      s.tm.pendingPacketPrepare = true ∨ ∃ pre, LossProbe pre s) : Loads s t
  | queueWrite (bufs : List (List UInt8)) (onAck isEnd : Bool) {s t : Stream} (hbufs : bufs ≠ [])
    (h : Aligned s t) (hacking : t.ctl.acking = s.ctl.acking)
    (hload : t.tx.load = (s.tx.queueWrite bufs onAck isEnd).load) : Loads s t
  | take (c : SeqNo) (k : ℕ) {s t : Stream} (hk : s.tx.outgoing c = some k) (h : Aligned s t)
    (hload : t.tx.load = (s.tx.setOutgoing c none).load) (hacking : t.ctl.acking = (s.tx.pkts k).bufs)
    (hidle : s.ctl.acking = [] ∧ s.st.dead = false ∨ (s.tx.pkts k).bufs = []) (pre : Core)
    (hpre : pre.ctl.acking = s.ctl.acking) (hmem : .reached (.ackTake k) pre ∈ t.log) : Loads s t
  | takeDead (c : SeqNo) (k : ℕ) (x : Chunk) (rest : List Chunk) {s t : Stream} (pre : Core)
    (hk : s.tx.outgoing c = some k) (hb : (s.tx.pkts k).bufs = x :: rest) (h : Aligned s t)
    (hdead : s.st.dead = true) (hload : t.tx.load = ((s.tx.setOutgoing c none).ackBytes x).load)
    (hacking : t.ctl.acking = rest) (hpre : pre = s.toCore)
    (hmem : .reached (.ackTake k) pre ∈ t.log) : Loads s t
  | count (c : Chunk) (rest : List Chunk) {s t : Stream} (hc : s.ctl.acking = c :: rest)
    (h : Aligned s t) (hload : t.tx.load = (s.tx.ackBytes c).load) (hacking : t.ctl.acking = rest) :
    Loads s t

namespace LoadKept

variable {s t u : Stream}

theorem trans (h : LoadKept s t) (h' : LoadKept t u) : LoadKept s u :=
  ⟨⟨h.prepare ∘ h'.prepare, h'.mtu ∘ h.mtu, h'.dead.trans h.dead, h'.closed.trans h.closed⟩,
    h'.load.trans h.load, h'.acking.trans h.acking⟩

theorem of_core (h : t.toCore = s.toCore) : LoadKept s t := by
  refine ⟨⟨?_, ?_, ?_, ?_⟩, ?_, ?_⟩ <;> rw [h]
  · exact id
  · exact id

theorem calm (h : Calm s t) : LoadKept s t :=
  ⟨⟨by rw [h.tm]; exact id, fun hm => h.mtu ▸ hm, h.dead, h.closed⟩, congrArg Tx.load h.tx, h.acking⟩

/-- A step that leaves status, packets and locals alone. -/
theorem of_eq (hst : t.st = s.st) (hload : t.tx.load = s.tx.load) (hmtu : t.mtu = s.mtu)
    (hctl : t.ctl = s.ctl) (htm : t.tm.pendingPacketPrepare = s.tm.pendingPacketPrepare) :
    LoadKept s t :=
  ⟨⟨by rw [htm]; exact id, by rw [hmtu]; exact id, congrArg Status.dead hst,
    congrArg Status.closed hst⟩, hload, congrArg Control.acking hctl⟩

end LoadKept

theorem Timers.Arms.prepare {tm tm' : Timers} (h : tm.Arms tm') :
    tm'.pendingPacketPrepare = tm.pendingPacketPrepare := by
  rcases h with ⟨-, rfl⟩ | ⟨x, due, ts, -, rfl⟩ <;> rfl

theorem Resent.loadKept {k : ℕ} {s t : Stream} (h : Resent k s t) : LoadKept s t := by
  obtain ⟨r, -, harm⟩ := h.tm
  have hst : t.st = s.st := (congrArg Core.st h.core :)
  exact ⟨⟨by rw [harm.prepare]; exact id, fun hm => h.mtu ▸ hm, congrArg Status.dead hst,
    congrArg Status.closed hst⟩, h.load, (congrArg (fun c => c.ctl.acking) h.core :)⟩

theorem unprobeIfProbe_loadKept (k : ℕ) (s : Stream) : LoadKept s (unprobeIfProbe k s) := by
  have htunes : ∀ m : Mtu, m.Tunes (mtuProbeLost m) := by
    intro m
    unfold mtuProbeLost
    split_ifs
    · exact ⟨rfl, rfl, rfl, .inr rfl⟩
    · exact ⟨rfl, rfl, rfl, .inl rfl⟩
    · exact .refl m
  have hload := unprobeIfProbe_load k s
  unfold unprobeIfProbe at hload ⊢
  split
  · next hp =>
    rw [if_pos hp] at hload
    exact ⟨⟨id, (htunes s.mtu).sound, rfl, rfl⟩, hload, rfl⟩
  · exact .of_core rfl

theorem SendMove.loads {s t : Stream} (h : SendMove s t) : Loads s t := by
  cases h with
  | aside h => exact .same (.calm ((Calm.refl s).aside h))
  | enter => exact .same (.of_core (Stream.check_core ..))
  | tlpEnter => exact .same (.of_core (Stream.check_core ..))
  | recover h =>
    exact .same (.of_eq (congrArg Core.st h.core :) (congrArg (fun c => c.tx.load) h.core :) h.mtu
      (congrArg Core.ctl h.core :) (congrArg (fun c => c.tm.pendingPacketPrepare) h.core :))
  | slice b rest _ hq hcap => exact .slice b rest s hq hcap
  | shift b rest _ hq hfull => exact .shift b rest s hq hfull
  | prepare _ hdata => exact .prepare s hdata
  | newPacket h hc => exact .newPacket h hc
  | resend k rest hk h => exact .same h.loadKept
  | reprobe k hk h =>
    have hunlink : LoadKept s (s.withTx fun tx => tx.unlinkInflight k) := .of_eq rfl rfl rfl rfl rfl
    exact .same (hunlink.trans h.loadKept)
  | lost k hk href =>
    have hlost : LoadKept s (s.withTx fun tx => tx.markLost k) :=
      .of_eq rfl (Tx.load_markLost s.tx k) rfl rfl rfl
    exact .same (hlost.trans (unprobeIfProbe_loadKept k _))
  | rearm fromNow =>
    refine .same ?_
    unfold rearmRto rearmSavedRto
    split_ifs
    · exact .of_eq rfl rfl rfl rfl rfl
    · exact .of_eq rfl rfl rfl rfl rfl
    · exact (LoadKept.of_core (Stream.check_core ..)).trans (.of_eq rfl rfl rfl rfl rfl)
  | lossTimer ms | reoTimer ms | deadline ts => exact .same (.of_eq rfl rfl rfl rfl rfl)
  | fullAck =>
    have hcheck : LoadKept s (s.check .fullAckQueues
        (s.tx.inflightQueue.length = 0 ∧ s.tx.retransmitQueue.length = 0)) :=
      .of_core (Stream.check_core ..)
    refine .same (hcheck.trans ?_)
    unfold timerFullAck startKeepalive
    dsimp only
    split_ifs <;> exact .of_eq rfl rfl rfl rfl rfl

/-! ### Calls, timers and acknowledgements -/

section

variable (env : Env)

theorem sendProbe_loadKept (s : Stream) : LoadKept s (sendProbe env s) := by
  have hcore := sendProbe_core env s
  exact .of_eq (congrArg Core.st hcore :) (congrArg (fun c => c.tx.load) hcore :)
    (congrArg Core.mtu hcore :) (congrArg Core.ctl hcore :)
    (congrArg (fun c => c.tm.pendingPacketPrepare) hcore :)

theorem startKeepalive_loadKept (s : Stream) : LoadKept s (startKeepalive s) := by
  unfold startKeepalive
  split <;> exact .of_eq rfl rfl rfl rfl rfl

theorem zwpTimeout_loadKept (s : Stream) : LoadKept s (udxZwpTimeout env s) := by
  have hcheck : ∀ {x : Stream} (a : Site) (p : Prop) [Decidable p], LoadKept s x →
      LoadKept s (x.check a p) := fun a p _ hx => hx.trans (.of_core (Stream.check_core a p _))
  have hcount : ∀ {x : Stream}, LoadKept s x →
      LoadKept s (x.withTm fun tm => { tm with zwpCount := (tm.zwpCount + 1) % 2 ^ 16 }) := fun hx =>
    hx.trans (.of_eq rfl rfl rfl rfl rfl)
  have hchecks := hcheck .zwpClosed (s.st.closed = false) (hcheck .zwpRwnd (s.win.sendRwnd = 0)
    (hcheck .zwpConnected (s.st.connected = true) (.of_core rfl)))
  have hprobe := (hcount hchecks).trans (sendProbe_loadKept env _)
  unfold udxZwpTimeout
  dsimp only
  simp only [Stream.check_win, Stream.check_st]
  exact (hcheck _ _ (hcheck _ _ hprobe)).trans (.of_eq rfl rfl rfl rfl rfl)

theorem rtoStart_loadKept (s : Stream) : LoadKept s (rtoStart s) := by
  have hcore := rtoStart_core s
  exact .of_eq (congrArg Core.st hcore :) (congrArg (fun c => c.tx.load) hcore :)
    (congrArg Core.mtu hcore :) (congrArg Core.ctl hcore :)
    (congrArg (fun c => c.tm.pendingPacketPrepare) hcore :)

theorem rtoScan_loadKept (s : Stream) : LoadKept s (rtoScan s) := by
  have hlook : ∀ (reoWnd k : ℕ) (x : Stream), LoadKept x (rtoLook reoWnd k x) := by
    intro reoWnd k x
    have hcount : LoadKept x (x.withCc fun cc => { cc with lost := cc.lost + 1 }) :=
      .of_eq rfl rfl rfl rfl rfl
    have hprobe := hcount.trans (unprobeIfProbe_loadKept k _)
    unfold rtoLook rtoKeepLost rtoMarkLost
    dsimp only
    split_ifs
    · exact .of_eq rfl rfl rfl rfl rfl
    · exact hprobe
    · exact hprobe.trans (.of_eq rfl (Tx.load_markLost _ k) rfl rfl rfl)
    · exact .of_core rfl
  have hloop : ∀ (reoWnd n : ℕ) (seq : SeqNo) (x : Stream), LoadKept x (rtoLoop reoWnd n seq x) := by
    intro reoWnd n
    induction n with
    | zero => exact fun _ _ => .of_core rfl
    | succ n ih =>
      intro seq x
      unfold rtoLoop
      split
      · exact ih ..
      · exact (hlook _ _ _).trans (ih ..)
  unfold rtoScan
  exact (rtoStart_loadKept s).trans (hloop ..)

theorem removeAcked_load (t : Tx) (seq : SeqNo) (k : ℕ) (sack : Bool) :
    (t.removeAcked seq k sack).load = (t.setOutgoing seq none).load := by
  unfold Tx.removeAcked
  dsimp only
  split_ifs <;> rfl

theorem Mtu.Sound.acked {m : Mtu} (h : m.Sound) (isMtuProbe : Bool) : (m.acked isMtuProbe).Sound := by
  have hprobe : m.state = .search → m.probeAcked.Sound ∧ m.probeAcked.state ≠ .base := by
    intro hstate
    have hmax := h.max.resolve_right (by rw [hstate]; nofun)
    have hsize := h.probeSize
    unfold Mtu.probeAcked
    dsimp only
    split_ifs
    · exact ⟨⟨hsize, hsize, .inr rfl⟩, nofun⟩
    · exact ⟨⟨hsize, hmax, .inl hmax⟩, by simp [hstate]⟩
    · exact ⟨⟨hsize, Nat.le_trans hsize (Nat.le_add_right ..), .inl hmax⟩, by simp [hstate]⟩
  have hstart : ∀ {m : Mtu}, m.Sound → (if m.state = .base ∨ m.state = .error then
      { m with state := .search, probeWanted := true } else m).Sound := by
    intro m hm
    split
    · next hb =>
      have hmax := hm.max.resolve_right (by rcases hb with hb | hb <;> rw [hb] <;> nofun)
      exact ⟨hm.mtu, hm.probeSize, .inl hmax⟩
    · exact hm
  unfold Mtu.acked
  dsimp only
  split
  · next hp => exact hstart (hprobe hp.1).1
  · exact hstart h

/-- A packet that is acknowledged is taken. -/
theorem ackTake_aligned (c : SeqNo) (k : ℕ) (sack : Bool) (s : Stream) :
    Aligned s (ackTake c k sack s) ∧
      (ackTake c k sack s).tx.load = (s.tx.setOutgoing c none).load ∧
      (ackTake c k sack s).ctl.acking = (s.tx.pkts k).bufs ∧
      .reached (.ackTake k) s.toCore ∈ (ackTake c k sack s).log := by
  have hcore := Stream.check_core .cirbufNull (s.tx.outgoingLive = true) s
  unfold ackTake
  generalize s.check .cirbufNull (s.tx.outgoingLive = true) = x at hcore ⊢
  have hbeside := takeAcked_besideCc c k sack x
  have htx := takeAcked_tx c k sack x
  have hst := (takeAcked_st c k sack x).trans (congrArg Core.st hcore)
  refine ⟨⟨?_, ?_, congrArg Status.dead hst, congrArg Status.closed hst⟩, ?_, ?_, ?_⟩
  · have htm : (takeAcked c k sack x).tm = x.tm := (congrArg (fun y => y.tm) hbeside :)
    rw [htm, hcore]
    exact id
  · have hmtu : (takeAcked c k sack x).mtu = Mtu.acked (x.tx.pkts k).isMtuProbe x.mtu :=
      (congrArg (fun y => y.mtu) hbeside :)
    rw [hmtu, hcore]
    exact fun h => h.acked _
  · rw [htx, removeAcked_load, hcore]
  · rw [takeAcked_acking, hcore]
  · have hlog : (takeAcked c k sack x).log = .reached (.ackTake k) x.toCore :: x.log :=
      congrArg Stream.log hbeside
    rw [hlog, hcore]
    exact List.mem_cons_self

theorem countBytes_core (b bytes : ℕ) (cancelled : Bool) (s : Stream) :
    (countBytes b bytes cancelled s).toCore = { s.toCore with tx := s.tx.countBytes b bytes cancelled } := by
  unfold countBytes checkBytes Stream.withTx
  dsimp only
  split <;> simp only [Stream.check_core]

/-- A slice of it is counted. -/
theorem ackBytes_core (c : Chunk) (rest : List Chunk) (s : Stream) :
    (ackBytes c rest s).toCore = { s.toCore with
      tx := s.tx.ackBytes c, ctl := { s.ctl with acking := rest, ackDue := some c.wbuf } } := by
  unfold ackBytes
  dsimp only
  rw [countBytes_core]
  rfl

theorem ackBytes_aligned (c : Chunk) (rest : List Chunk) (s : Stream) :
    Aligned s (ackBytes c rest s) := by
  have hcore := ackBytes_core c rest s
  refine ⟨?_, ?_, (congrArg (fun x => x.st.dead) hcore :), (congrArg (fun x => x.st.closed) hcore :)⟩
  · rw [show (ackBytes c rest s).tm = s.tm from (congrArg Core.tm hcore :)]
    exact id
  · rw [show (ackBytes c rest s).mtu = s.mtu from (congrArg Core.mtu hcore :)]
    exact id

theorem connectBind_loadKept (socket : Socket) (id : SeqNo) (addr : SockAddr) (s : Stream) :
    LoadKept s (connectBind env socket id addr s).1 := by
  have hbind : LoadKept s ((s.withSt fun st => { st with connected := true }).withPeer fun peer =>
      { peer with remoteId := id, socket := some socket }) :=
    ⟨⟨fun h => h, fun h => h, rfl, rfl⟩, rfl, rfl⟩
  have hset : ∀ x : Stream, LoadKept x (setRemoteAddr (some socket) addr x).1 := by
    intro x
    rw [setRemoteAddr_core]
    exact ⟨⟨fun h => h, fun h => h, rfl, rfl⟩, rfl, rfl⟩
  have haddr := hbind.trans (hset _)
  unfold connectBind
  dsimp only
  split
  · exact haddr.trans ⟨⟨fun h => h, fun h => h.setLink _, rfl, rfl⟩, rfl, rfl⟩
  · exact haddr

/-- What the close and the cancelling of packets leave alone. -/
theorem countBytes_packing (b bytes : ℕ) (cancelled : Bool) (t : Tx) :
    (t.countBytes b bytes cancelled).packing = t.packing := rfl

theorem closeStart_packing (err : CloseErr) (s : Stream) :
    (closeStart env err s).tx = s.tx ∧ (closeStart env err s).tm = s.tm ∧
      (closeStart env err s).mtu = s.mtu ∧ (closeStart env err s).st.closed = true := by
  have hdead : (markDead (s.check .closeTwice (s.st.closed = false))).toCore = s.toCore := by
    rw [markDead_core, Stream.check_core]
  have hannounce : ∀ (x : Stream) (on : Bool) (c : Callback), (x.announce on c).toCore = x.toCore := by
    intro x on c
    unfold Stream.announce
    split <;> rfl
  unfold closeStart
  dsimp only
  rw [hannounce]
  unfold closeBegin setClosed
  dsimp only
  generalize markDead (s.check .closeTwice (s.st.closed = false)) = x at hdead ⊢
  rw [← hdead]
  split <;> exact ⟨rfl, rfl, rfl, rfl⟩

theorem Atom.loads {s t : Stream} (h : Atom env s t) : Loads s t := by
  have hclear : LoadKept s (Udx.clearTimer s) := .of_eq rfl rfl rfl rfl rfl
  have hannounce : ∀ (x : Stream) (on : Bool) (c : Callback), (x.announce on c).toCore = x.toCore := by
    intro x on c
    unfold Stream.announce
    split <;> rfl
  have hcancel : ∀ (c : ℕ) (n : ℕ) (x : Stream) (b : ℕ), x.tm = s.tm → x.mtu = s.mtu →
      x.tx.packing = s.tx.packing → x.st = s.st → s.st.closed = true →
      Loads s (announceCancel b (countBytes c n true x)) := by
    intro c n x b htm hmtu hload hst hs
    have hcore := countBytes_core c n true x
    unfold announceCancel
    refine .close ?_ ?_ ?_ ?_
    · rw [hannounce, show (countBytes c n true x).tm = s.tm from (congrArg Core.tm hcore :).trans htm]
      exact id
    · rw [hannounce, show (countBytes c n true x).mtu = s.mtu from (congrArg Core.mtu hcore :).trans hmtu]
      exact id
    · rw [hannounce, countBytes_tx, countBytes_packing]
      exact hload
    · rw [hannounce, countBytes_st, hst]
      exact hs
  cases h with
  | calm h => exact .same (.calm h)
  | send h => exact h.loads
  | found e => exact .same (.of_core rfl)
  | begin e => exact .same (.of_core rfl)
  | finish _ hcur hset => exact .finish s (hset.imp_right fun h => h.1)
  | changePath socket id addr cb =>
    obtain ⟨hcore, -, -, hmtu⟩ :=
      changePath_spec socket id addr cb (s.note (.call (.changeRemote socket id addr cb) s.toCore))
    refine .same ⟨⟨?_, ?_, (congrArg (fun c => c.st.dead) hcore :),
      (congrArg (fun c => c.st.closed) hcore :)⟩, (congrArg (fun c => c.tx.load) hcore :),
      (congrArg (fun c => c.ctl.acking) hcore :)⟩
    · have hprep := (congrArg (fun c => c.tm.pendingPacketPrepare) hcore :)
      exact fun hp => hprep.symm.trans hp
    · rcases hmtu with hm | hm <;> rw [hm]
      · exact fun hsound => hsound
      · exact fun _ => .reset
  | remoteChanged =>
    have hchanged : LoadKept s (Udx.remoteChanged s) := .of_eq rfl rfl rfl rfl rfl
    exact .same (hchanged.trans (.of_core (hannounce _ _ _)))
  | tick => exact .same (.of_eq rfl rfl rfl rfl rfl)
  | packet p => exact .same ⟨⟨id, id, rfl, rfl⟩, rfl, rfl⟩
  | setKeepalive ms =>
    unfold udxStreamSetKeepalive
    dsimp only
    split <;> exact .same (.of_eq rfl rfl rfl rfl rfl)
  | relayTo | clearRelayTo => exact .same (.of_eq rfl rfl rfl rfl rfl)
  | capacity _ hdata => exact .capacity s hdata
  | setEnding => exact .same ⟨⟨id, id, rfl, rfl⟩, rfl, rfl⟩
  | queueWrite bufs onAck isEnd _ hconn hbufs hend hlog =>
    have hprobe := fun x => sendProbe_loadKept env x
    have hqueued : ∀ {u : Stream}, LoadKept (s.withTx fun tx => tx.queueWrite bufs onAck isEnd) u →
        Loads s u := fun h =>
      .queueWrite bufs onAck isEnd hbufs ⟨h.prepare, h.mtu, h.dead, h.closed⟩ h.acking h.load
    unfold Udx.queueWrite probeWindow
    dsimp only
    split
    · exact hqueued ((hprobe _).trans (.of_eq rfl rfl rfl rfl rfl))
    · exact hqueued (.of_core rfl)
  | bind socket id addr =>
    have hnote : LoadKept s (s.note (.call (.connect socket id addr) s.toCore)) := .of_core rfl
    exact .same (hnote.trans (connectBind_loadKept env ..))
  | keepalive =>
    unfold connectKeepalive
    dsimp only
    split <;> exact .same (.of_eq rfl rfl rfl rfl rfl)
  | destroy _ hdead hconn =>
    rcases destroyStart_core env s with ⟨-, heq⟩ | ⟨-, hcore, hmem⟩
    · have hset := setDestroying_core s
      obtain ⟨htx, htm, hmtu, hclosed⟩ := closeStart_packing env .none (setDestroying s)
      rw [heq]
      refine .close ?_ ?_ ?_ hclosed
      · rw [htm, show (setDestroying s).tm = s.tm from (congrArg Core.tm hset :)]
        exact id
      · rw [hmtu, show (setDestroying s).mtu = s.mtu from (congrArg Core.mtu hset :)]
        exact id
      · rw [htx, show (setDestroying s).tx = s.tx from (congrArg Core.tx hset :)]
    · exact .destroy _ (congrArg Core.tm hcore :) (congrArg Core.mtu hcore :)
        (congrArg (fun c => c.tx.load) hcore :) (congrArg Core.ctl hcore :)
        (congrArg (fun c => c.st.closed) hcore :)
        (by simp [Status.dead, (congrArg (fun c => c.st.destroying) hcore :)])
        (congrArg Core.ctl (setDestroying_core s) :) hmem
  | close err =>
    obtain ⟨htx, htm, hmtu, hclosed⟩ := closeStart_packing env err s
    exact .close (by rw [htm]; exact id) (by rw [hmtu]; exact id) (by rw [htx]) hclosed
  | cancelPkt _ hs =>
    have hcore := Stream.check_core .packetHeld ((s.tx.pkts s.tx.pkt).refCount = 1) s
    unfold Udx.cancelPkt
    dsimp only
    generalize s.check .packetHeld ((s.tx.pkts s.tx.pkt).refCount = 1) = x at hcore ⊢
    have hx : LoadKept s x := .of_core hcore
    exact .close hx.prepare hx.mtu (congrArg (fun c => c.tx.packing) hcore :) (hx.closed.trans hs)
  | cancelSeq seq k _ hs hk => exact .close id id rfl hs
  | cancelChunk c rest _ hs hc => exact hcancel _ _ _ _ rfl rfl rfl rfl hs
  | cancelDone k _ hs hc => exact .same (.of_eq rfl (Tx.load_derefPacket _ k) rfl rfl rfl)
  | cancelQueued b rest _ hs hb => exact hcancel _ _ _ _ rfl rfl rfl rfl hs
  | release _ hs =>
    unfold releaseHandles udxStreamReadStop
    split <;> exact .close (fun h => absurd h Bool.false_ne_true) id rfl hs
  | clearTimer => exact .same hclear
  | keepaliveTimeout =>
    have hcheck : LoadKept s ((Udx.clearTimer s).check .keepaliveIdle (s.tx.seq = s.tx.remoteAcked)) :=
      hclear.trans (.of_core (Stream.check_core ..))
    exact .same ((hcheck.trans (sendProbe_loadKept env _)).trans (.of_eq rfl rfl rfl rfl rfl))
  | zwpTimeout => exact .same (hclear.trans (zwpTimeout_loadKept env _))
  | rtoScan => exact .same (hclear.trans (rtoScan_loadKept _))
  | giveUp =>
    have hstart := hclear.trans (rtoStart_loadKept (Udx.clearTimer s))
    have hdrop : LoadKept s (dropTimewaitOnError .timedOut (rtoStart (Udx.clearTimer s))) := by
      unfold dropTimewaitOnError
      split
      · exact hstart.trans ⟨⟨id, id, rfl, rfl⟩, rfl, rfl⟩
      · exact hstart
    unfold rtoGiveUp closeUnlessDestroying
    dsimp only
    split
    · exact .same hdrop
    · obtain ⟨htx, htm, hmtu, hclosed⟩ := closeStart_packing env .timedOut
        (dropTimewaitOnError .timedOut (rtoStart (Udx.clearTimer s)))
      refine .close (by rw [htm]; exact hdrop.prepare) (by rw [hmtu]; exact hdrop.mtu) ?_ hclosed
      rw [htx]
      exact Tx.packing_of_load hdrop.load
  | clearPacing => exact .same (.of_eq rfl rfl rfl rfl rfl)
  | uvSent i =>
    unfold Udx.uvSent
    split
    · exact .same (.of_core rfl)
    · split
      · exact .same (.of_core rfl)
      · exact .same (.of_eq rfl rfl rfl rfl rfl)
  | uvDone i =>
    unfold Udx.uvDone
    split
    · exact .same (.of_core rfl)
    · next u hu =>
      have hderef := Tx.load_derefPacket { s.tx with uvq := s.tx.uvq.eraseIdx i } u.pkt
      exact .same (.of_eq rfl hderef rfl rfl rfl)
  | copySent i =>
    unfold Udx.copySent
    split
    · exact .same (.of_core rfl)
    · split
      · exact .same (.of_core rfl)
      · exact .same (.of_eq rfl rfl rfl rfl rfl)
  | relay seq => exact .same (.of_eq rfl rfl rfl rfl rfl)
  | window p =>
    unfold updateSendWindow stopZwp
    split
    · split <;> exact .same ⟨⟨id, id, rfl, rfl⟩, rfl, rfl⟩
    · exact .same ⟨⟨id, id, rfl, rfl⟩, rfl, rfl⟩
  | ackInit p => exact .same ⟨⟨id, id, rfl, rfl⟩, rfl, rfl⟩
  | ackAbsent p c =>
    have hset : LoadKept s (setCursor (some (c + 1)) s) := ⟨⟨id, id, rfl, rfl⟩, rfl, rfl⟩
    have hcheck := hset.trans (.of_core (Stream.check_core .cirbufNull
      ((setCursor (some (c + 1)) s).tx.outgoingLive = true) _))
    exact .same (hcheck.trans (.of_eq rfl rfl rfl rfl rfl))
  | sackAbsent => exact .same (.of_core (Stream.check_core ..))
  | ackTake p c k _ hp hdead hc hlt hk hidle =>
    obtain ⟨halign, hload, hacking, hmem⟩ := ackTake_aligned c k false (setCursor (some (c + 1)) s)
    exact .take c k hk ⟨halign.prepare, halign.mtu, halign.dead, halign.closed⟩ hload hacking
      (.inl ⟨hidle.1, hdead⟩) (setCursor (some (c + 1)) s).toCore rfl hmem
  | sackTake c k _ hc hk hidle =>
    obtain ⟨halign, hload, hacking, hmem⟩ := ackTake_aligned c k true s
    exact .take c k hk halign hload hacking (hidle.imp_left fun h => ⟨h.2.1, h.1⟩) _ rfl hmem
  | sackDead c k x rest _ hc hk hdead hb =>
    obtain ⟨halign, hload, -, hmem⟩ := ackTake_aligned c k true s
    have hcount := ackBytes_aligned x rest (Udx.ackTake c k true s)
    have hcore := ackBytes_core x rest (Udx.ackTake c k true s)
    refine .takeDead c k x rest s.toCore hk hb ⟨halign.prepare ∘ hcount.prepare, hcount.mtu ∘ halign.mtu,
      hcount.dead.trans halign.dead, hcount.closed.trans halign.closed⟩ hdead ?_
      (congrArg (fun x => x.ctl.acking) hcore :) rfl ((ackBytes_logs (.refl _) x rest).mem hmem)
    rw [show (ackBytes x rest (Udx.ackTake c k true s)).tx = (Udx.ackTake c k true s).tx.ackBytes x from
      (congrArg Core.tx hcore :)]
    have hack : ∀ y : Tx, (y.ackBytes x).load = (y.load.ackBytes x).load := fun _ => rfl
    rw [hack, hload, ← hack]
  | chunk c rest _ hc =>
    have hcore := ackBytes_core c rest s
    exact .count c rest hc (ackBytes_aligned c rest s) (congrArg (fun x => x.tx.load) hcore :)
      (congrArg (fun x => x.ctl.acking) hcore :)
  | complete b sack =>
    have hset : LoadKept s (clearAckDue s) := ⟨⟨id, id, rfl, rfl⟩, rfl, rfl⟩
    exact .same (hset.trans (.of_core (hannounce _ _ _)))
  | ackDone k =>
    have hderef : LoadKept s (derefPacket k s) := .of_eq rfl (Tx.load_derefPacket _ k) rfl rfl rfl
    unfold Udx.ackDone ackEnd
    split
    · exact .same (hderef.trans ⟨⟨id, id, rfl, rfl⟩, rfl, rfl⟩)
    · exact .same (hderef.trans (.of_eq rfl rfl rfl rfl rfl))
  | ackDrop k => exact .same (.of_eq rfl (Tx.load_derefPacket _ k) rfl rfl rfl)
  | advance p =>
    unfold advanceRemoteAcked
    dsimp only
    split <;> exact .same ⟨⟨id, id, rfl, rfl⟩, rfl, rfl⟩
  | processed => exact .same ⟨⟨id, id, rfl, rfl⟩, rfl, rfl⟩
  | timerEnded =>
    unfold Udx.timerEnded
    split
    · exact .same (startKeepalive_loadKept s)
    · exact .same (.of_core rfl)

end

end Udx
