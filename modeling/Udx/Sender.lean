/-
# The send path

From `stream_timer_start` to `udx_rack_reo_timeout` in `udx.c`: filling
packets from the write queue, handing them to libuv, retransmitting, the
tail-loss probe and RACK. None of it runs a user callback.

`cirbuf` and the queues are maps and lists here; `Tx.pushInflight`,
`Tx.unlinkInflight`, `Tx.unlinkLost` and `Tx.markLost` are the code's queue
moves with the counters it keeps beside them. The debug switches that drop a
packet before `uv_udp_try_send` are a send error of the environment.

Key definitions: `_sendPacket`, `_sendNewPacket`, `sendNewPacket`,
`retransmitPacket`, `sendPackets`, `udxTlpTimeout`, `rackDetectLoss`.
-/
import Udx.Congestion
import Mathlib.Algebra.GroupWithZero.Nat

namespace Udx

open Serial

/-! ### The stream timer -/

def Timers.start (tm : Timers) (timer : Timer) (due : ℕ) : Timers :=
  { tm with
    pendingTimer := timer
    timer := some (timer, due)
    nextRtoTs := if timer = .rto then due else tm.nextRtoTs }

def streamTimerStart (timer : Timer) (timeWaitMs : ℕ) (s : Stream) : Stream :=
  s.withTm fun tm => tm.start timer (s.io.now + timeWaitMs)

def streamTimerStop (s : Stream) : Stream :=
  s.withTm fun tm => { tm with timer := none, pendingTimer := .none }

/-- A saved deadline as milliseconds from now, 1 if it has passed. -/
def deadlineDelta (ts now : ℕ) : ℕ := if (ts : ℤ) - now < 0 then 1 else ts - now

/-- `rearm_rto` for the deadline saved behind another timer. -/
def rearmSavedRto (s : Stream) : Stream :=
  let s := s.check .rearmPending (s.tm.pendingTimer = .rackReo ∨ s.tm.pendingTimer = .tlp)
  streamTimerStart .rto (deadlineDelta s.tm.nextRtoTs s.io.now) s

def rearmRto (fromNow : Bool) (s : Stream) : Stream :=
  if s.tx.seq = s.tx.remoteAcked then streamTimerStop s
  else if fromNow then streamTimerStart .rto s.cc.rto s
  else rearmSavedRto s

/-- The timeout of `schedule_loss_probe` before it is capped. -/
def lossProbeTimeout (s : Stream) : ℕ :=
  if s.cc.srtt ≠ 0 then
    let timeout := s.cc.srtt * 2 % 2 ^ 32
    if s.tx.inflightQueue.length + s.tx.retransmitQueue.length = 1 then
      add32 timeout UDX_TLP_MAX_ACK_DELAY
    else timeout
  else 1000

def scheduleLossProbe (advancingRto : Bool) (s : Stream) : Stream × Bool :=
  if s.tx.seq = s.tx.remoteAcked ∨ s.cc.caState ≠ .opened ∨ s.tx.sacks ≠ 0 then (s, false)
  else
    let rtoDeltaMs := if advancingRto then s.cc.rto else deadlineDelta s.tm.nextRtoTs s.io.now
    (streamTimerStart .tlp (min (lossProbeTimeout s) rtoDeltaMs) s, true)

/-- The asserts of `arm_stream_timers`. -/
def checkArm (s : Stream) : Stream :=
  let s := s.check .armInflight (s.tx.inflightQueue.length > 0)
  let s := s.check .armOutstanding (s.tx.remoteAcked ≠ s.tx.seq)
  let s := s.check .armRto (s.cc.rto > 0)
  s.check .armClosed (s.st ≠ { closed := true })

/-- The RTO starts where no timer of the outstanding packets is pending. -/
def armRto (s : Stream) : Stream :=
  if s.tm.pendingTimer = .none ∨ s.tm.pendingTimer = .zwp ∨ s.tm.pendingTimer = .keepalive then
    streamTimerStart .rto s.cc.rto s
  else s

def armTlp (s : Stream) : Stream :=
  if s.cc.caState = .opened ∧ s.tx.sacks = 0 then (scheduleLossProbe false s).1 else s

def armStreamTimers (tlp : Bool) (s : Stream) : Stream :=
  let s := armRto (checkArm s)
  if tlp then armTlp s else s

/-! ### Queue moves -/

namespace Tx

def pushInflight (t : Tx) (k : ℕ) : Tx :=
  { t with
    inflightQueue := t.inflightQueue ++ [k]
    inflight := t.inflight + (t.pkts k).size }

def unlinkInflight (t : Tx) (k : ℕ) : Tx :=
  { t with
    inflightQueue := t.inflightQueue.erase k
    inflight := t.inflight - (t.pkts k).size }

def unlinkLost (t : Tx) (k : ℕ) : Tx :=
  { t with retransmitQueue := t.retransmitQueue.erase k }.setPkt k fun p => { p with lost := false }

def markLost (t : Tx) (k : ℕ) : Tx :=
  let t := (t.setPkt k fun p => { p with lost := true }).unlinkInflight k
  { t with retransmitQueue := t.retransmitQueue ++ [k] }

/-- `udx__cirbuf_set`. -/
def setOutgoing (t : Tx) (seq : SeqNo) (v : Option ℕ) : Tx :=
  { t with outgoing := Function.update t.outgoing seq v }

/-- `reset_next_packet`, with the payload a packet can take. -/
def resetNextPacket (t : Tx) (maxPayload : ℕ) : Tx :=
  let t := { t with pktCapacity := maxPayload, pktHeaderFlag := 0, pkt := t.pkt + 1 }
  t.setPkt t.pkt fun _ => { streamOffset := t.bytesPacketized }

end Tx

section

variable (env : Env)

/-! ### Headers and probes -/

def getRecvRwnd (s : Stream) : ℕ :=
  let bufsize := env.readBufferSize s.io.calls
  if s.rx.recvRwndMax > bufsize then s.rx.recvRwndMax - bufsize else 0

def udxWriteHeader (type : UInt8) (remoteId : SeqNo) (s : Stream) : Header :=
  { type := type
    dataOffset := 0
    remoteId := remoteId
    rwnd := BitVec.ofNat 32 (getRecvRwnd env s)
    seq := s.tx.seq
    ack := s.rx.ack }

def Peer.dest (p : Peer) : Dest := ⟨p.socket, p.remoteAddr⟩

/-- Hand a datagram that is copied to libuv: an ack, a probe. -/
def sendCopy (k : Kind) (dest : Dest) (d : List UInt8) (s : Stream) : Stream :=
  let s := s.note (.handed k dest)
  match env.trySend s.io.calls with
  | .sent => (s.note (.wire k dest d)).asked
  | .again =>
    if env.uvSend s.io.calls then
      let copy : UvCopy := { kind := k, dest := dest, bytes := d }
      (s.withIo fun io => { io with copies := s.io.copies ++ [copy] } : Stream).asked
    else s.asked
  | .error => s.asked

def sendProbe (s : Stream) : Stream :=
  if s.peer.socket = none then s
  else
    sendCopy env .probe s.peer.dest
      (udxWriteHeader env UDX_HEADER_HEARTBEAT s.peer.remoteId s).encode s

/-- The padding that makes a packet an IP datagram of `wantedSize` bytes. -/
def Packet.padding (p : Packet) (wantedSize : ℕ) : ℤ :=
  let ipUdpOverhead :=
    (if p.remoteAddr.family = .inet then UDX_IPV4_HEADER_SIZE else UDX_IPV6_HEADER_SIZE) -
      UDX_HEADER_SIZE
  (wantedSize : ℤ) - (p.size + ipUdpOverhead : ℕ)

def Packet.probeify (p : Packet) (wantedSize : ℕ) : Packet :=
  { p with
    header := { p.header with dataOffset := UInt8.ofNat (p.padding wantedSize).toNat }
    isMtuProbe := true }

def Packet.unprobeify (p : Packet) : Packet :=
  { p with header := { p.header with dataOffset := 0 }, isMtuProbe := false }

def mtuProbeifyPacket (k : ℕ) (wantedSize : ℕ) (s : Stream) : Stream × Bool :=
  let p := s.tx.pkts k
  if !hasFlag p.header.type UDX_HEADER_DATA || p.header.dataOffset != 0 then (s, false)
  else
    let s := s.check .probeFamily (p.remoteAddr.family ≠ .unspec)
    if p.padding wantedSize < 0 ∨ p.padding wantedSize > 255 then (s, false)
    else (s.withTx fun tx => tx.setPkt k fun p => p.probeify wantedSize, true)

/-- A lost probe asks for another one, or ends the search. -/
def mtuProbeLost (m : Mtu) : Mtu :=
  if m.state = .search then
    if m.probeCount ≥ UDX_MTU_MAX_PROBES then { m with state := .searchComplete }
    else { m with probeWanted := true }
  else m

def mtuUnprobeifyPacket (k : ℕ) (s : Stream) : Stream :=
  (s.withTx fun tx => tx.setPkt k Packet.unprobeify).withMtu mtuProbeLost

/-! ### Handing a packet to libuv -/

/-- The `uv_buf_t` array of a packet: header, probe padding, data. -/
def Packet.uvBufs (p : Packet) (k : ℕ) : List UvBuf :=
  .header k :: (if p.isMtuProbe then [.padding p.header.dataOffset.toNat] else []) ++
    p.bufs.map .data

/-- `deref_packet`. -/
def Tx.derefPacket (t : Tx) (k : ℕ) : Tx :=
  t.setPkt k fun p => { p with refCount := p.refCount - 1 }

/-- `uv_udp_send` of packet `k`, where `uv_udp_try_send` says `UV_EAGAIN`. -/
def queuePacket (k : ℕ) (send : UvSend) (s : Stream) : Stream :=
  let s := s.withTx fun tx => tx.setPkt k fun p => { p with refCount := p.refCount + 1 }
  let s := s.check .packetRefCount ((s.tx.pkts k).refCount = 2)
  if env.uvSend s.io.calls then s.withTx fun tx => { tx with uvq := tx.uvq ++ [send] }
  else s.withTx fun tx => tx.derefPacket k

/-- The `uv_udp_try_send` of `_send_packet`. -/
def handPacket (k : ℕ) (s : Stream) : Stream :=
  let p := s.tx.pkts k
  let bufs := p.uvBufs k
  let dest : Dest := ⟨s.peer.socket, p.remoteAddr⟩
  let s := s.note (.handed (.packet k) dest)
  match env.trySend s.io.calls with
  | .sent => (s.note (.wire (.packet k) dest (s.tx.gather bufs))).asked
  | .again => (queuePacket env k { pkt := k, bufs := bufs, dest := dest } s).asked
  | .error => s.asked

/-- The token bucket pays for a packet; an empty one starts its refill timer. -/
def spendTokens (size : ℕ) (s : Stream) : Stream :=
  let s := s.withCc fun cc => { cc with
    tbAvailable := if size > cc.tbAvailable then 0 else cc.tbAvailable - size }
  if s.cc.tbAvailable = 0 then
    s.withTm fun tm => { tm with refillPacingTimer := some (s.io.now + 1) }
  else s

/-- What `_send_packet` writes on the packet. -/
def Packet.stampSend (isRetransmit : Bool) (now : ℕ) (cc : Cc) (p : Packet) : Packet :=
  Packet.ratePktSent cc { p with
    transmits := if p.transmits < 255 then p.transmits + 1 else p.transmits
    retransmitted := p.retransmitted || isRetransmit
    timeSent := now }

/-- A packet that was lost leaves the retransmit queue. -/
def Tx.unlinkIfLost (t : Tx) (k : ℕ) : Tx := if (t.pkts k).lost then t.unlinkLost k else t

def _sendPacket (k : ℕ) (isRetransmit : Bool) (s : Stream) : Stream :=
  let s := rateFlightStart (udxRateCheckAppLimited s)
  let s := s.withTx fun tx => tx.setPkt k (Packet.stampSend isRetransmit s.io.now s.cc)
  let s := s.withTx fun tx => (tx.unlinkIfLost k).pushInflight k
  spendTokens (s.tx.pkts k).size (handPacket env k s)

/-! ### New packets -/

def resetNextPacket (s : Stream) : Stream :=
  (s.withTx fun tx => tx.resetNextPacket (udxMaxPayload s)).withTm fun tm =>
    { tm with pendingPacketPrepare := false }

def Packet.bindRemote (peer : Peer) (p : Packet) : Packet :=
  { p with
    remoteId := peer.remoteId
    remoteAddr := peer.remoteAddr
    remoteAddrLen := peer.remoteAddrLen }

def bindPacketRemote (k : ℕ) (s : Stream) : Stream :=
  let s := s.note (.reached (.bind k) s.toCore)
  (s.check .packetBound ((s.tx.pkts k).remoteAddrLen = 0)).withTx fun tx =>
    tx.setPkt k (Packet.bindRemote s.peer)

/-- A packet with no payload gets its address when it is sent. -/
def bindIfUnbound (k : ℕ) (s : Stream) : Stream :=
  if (s.tx.pkts k).remoteAddrLen = 0 then bindPacketRemote k s else s

/-- The new packet gets its header and sequence number. -/
def Packet.number (header : Header) (p : Packet) : Packet :=
  { p with header := header, seq := header.seq, refCount := 1 }

def numberPacket (k : ℕ) (s : Stream) : Stream :=
  let header := udxWriteHeader env s.tx.pktHeaderFlag (s.tx.pkts k).remoteId s
  s.withTx fun tx => tx.setPkt k (Packet.number header)

/-- The new packet is made a probe if one is wanted. -/
def probeIfWanted (k : ℕ) (tlp : Bool) (s : Stream) : Stream × Bool :=
  if s.mtu.probeWanted && !tlp && !s.peer.remoteChanging then mtuProbeifyPacket k s.mtu.probeSize s
  else (s, false)

/-- `_send_new_packet` up to `udx__cirbuf_set`. -/
def stampNewPacket (tlp : Bool) (s : Stream) : Stream × Bool :=
  let k := s.tx.pkt
  probeIfWanted k tlp (numberPacket env k (bindIfUnbound k s))

/-- The new packet is outstanding. -/
def Tx.occupy (t : Tx) (seq : SeqNo) (k : ℕ) : Tx :=
  { t.setOutgoing seq (some k) with reused := t.reused || (t.outgoing seq).isSome }

/-- The sequence number of the new packet is used. -/
def Tx.advanceSeq (t : Tx) : Tx :=
  { t with
    seq := t.seq + 1
    span := max t.span ((t.seq - t.remoteAcked).toNat + 1) }

/-- The stream's first packet in flight. -/
def transmitStart (inflightQueueWasEmpty : Bool) (s : Stream) : Stream :=
  if inflightQueueWasEmpty then bbrOnTransmitStart env s else s

/-- The MTU search and the tail-loss probe after a new packet. -/
def countNewPacket (tlp mtuProbe : Bool) (seq : SeqNo) (s : Stream) : Stream :=
  let s := s.withMtu fun m =>
    if mtuProbe then { m with probeCount := m.probeCount + 1, probeWanted := false } else m
  s.withCc fun cc =>
    if tlp then
      { cc with
        tlpIsRetrans := false
        tlpInFlight := true
        tlpEndSeq := seq
        tlpPermitted := false }
    else cc

def _sendNewPacket (tlp : Bool) (s : Stream) : Stream :=
  let s := s.check .headerFlag (s.tx.pktHeaderFlag &&& ~~~UDX_HEADER_DATA_OR_END = 0)
  let inflightQueueWasEmpty := s.tx.inflightQueue.isEmpty
  let k := s.tx.pkt
  let (s, mtuProbe) := stampNewPacket env tlp s
  let s := s.withTx fun tx => tx.occupy (tx.pkts k).seq k
  let s := (_sendPacket env k false s).withTx Tx.advanceSeq
  let s := transmitStart env inflightQueueWasEmpty s
  let s := countNewPacket tlp mtuProbe (s.tx.pkts k).seq s
  let s := armStreamTimers (!tlp) s
  let s := s.check .packetSize ((s.tx.pkts k).size > 0 ∧ (s.tx.pkts k).size < 1500)
  resetNextPacket s

def onPendingPacketPrepare (s : Stream) : Stream := _sendNewPacket env false s

/-- Bytes of a write buffer in no packet yet. -/
def WriteBuf.writesz (b : WriteBuf) : ℕ := b.buf.length - b.bytesAcked - b.bytesInflight

/-- `len` bytes of write buffer `b` go into the packet in construction. -/
def Tx.packetize (t : Tx) (b len : ℕ) : Tx :=
  let wbuf := t.wbufs b
  let t := t.setPkt t.pkt fun p => { p with
    size := p.size + len
    nwbufsCapacity :=
      if p.bufs.length = p.nwbufsCapacity then p.nwbufsCapacity * 2 % 2 ^ 16 else p.nwbufsCapacity
    bufs := p.bufs ++ [⟨b, wbuf.bytesAcked + wbuf.bytesInflight, len⟩] }
  { t with
    pktCapacity := t.pktCapacity - len
    bytesPacketized := t.bytesPacketized + len }.setWbuf b fun w =>
      { w with bytesInflight := w.bytesInflight + len }

/-- The first payload of the packet in construction makes it a data packet. -/
def startData (s : Stream) : Stream :=
  (bindPacketRemote s.tx.pkt s).withTx fun tx =>
    { tx with pktHeaderFlag := tx.pktHeaderFlag ||| UDX_HEADER_DATA }

/-- One slice of write buffer `b` goes into the packet in construction. -/
def fillSlice (b : ℕ) (s : Stream) : Stream :=
  let len := min s.tx.pktCapacity (s.tx.wbufs b).writesz
  let s := s.withTx fun tx => tx.packetize b len
  if len > 0 && !hasFlag s.tx.pktHeaderFlag UDX_HEADER_DATA then startData s else s

/-- Write buffer `b` is packetized and leaves the write queue. -/
def Tx.shiftWrite (t : Tx) (b : ℕ) (rest : List ℕ) : Tx :=
  { t with
    pktHeaderFlag :=
      if (t.wbufs b).isWriteEnd then t.pktHeaderFlag ||| UDX_HEADER_END else t.pktHeaderFlag
    writeQueue := rest }

/-- The loop of `send_new_packet` over the write queue. A buffer that does
not fit takes all the capacity left, so the loop ends with it. -/
def fillPacket : List ℕ → Stream → Stream
  | [], s => s
  | b :: rest, s =>
    if s.tx.pktCapacity = 0 then s
    else
      let s := fillSlice b s
      let wbuf := s.tx.wbufs b
      if wbuf.bytesAcked + wbuf.bytesInflight = wbuf.buf.length then
        fillPacket rest (s.withTx fun tx => tx.shiftWrite b rest)
      else s

/-- `send_new_packet` once it may send: fill the packet and send it, or leave
it to the prepare handle. -/
def buildPacket (tlp : Bool) (s : Stream) : Stream × Bool :=
  let s := fillPacket s.tx.writeQueue s
  if decide (s.tx.pktCapacity = 0) || tlp || hasFlag s.tx.pktHeaderFlag UDX_HEADER_END then
    (_sendNewPacket env tlp s, true)
  else if hasFlag s.tx.pktHeaderFlag UDX_HEADER_DATA then
    (s.withTm fun tm => { tm with pendingPacketPrepare := true }, false)
  else (s, false)

def sendNewPacket (tlp : Bool) (s : Stream) : Stream × Bool :=
  if s.tx.writeQueue.length = 0 then (s, false)
  else
    let (s, may) := streamMaySend false s
    if !may && !tlp then (s, false) else buildPacket env tlp s

/-! ### Retransmissions -/

/-- A retransmission keeps its sequence and payload, but advertises the
current receive state. -/
def Packet.refresh (rwnd ack : SeqNo) (p : Packet) : Packet :=
  { p with header := { p.header with rwnd := rwnd, ack := ack } }

def retransmitPacket (k : ℕ) (s : Stream) : Stream :=
  let inflightQueueWasEmpty := s.tx.inflightQueue.isEmpty
  let rwnd := BitVec.ofNat 32 (getRecvRwnd env s)
  let s := s.withTx fun tx => tx.setPkt k (Packet.refresh rwnd s.rx.ack)
  let s := transmitStart env inflightQueueWasEmpty (_sendPacket env k true s)
  armStreamTimers false s

/-- The first loop of `send_packets`, at most `n` times round. -/
def retransmitLoop : ℕ → Stream → Stream
  | 0, s => s
  | n + 1, s =>
    match s.tx.retransmitQueue with
    | [] => s
    | k :: _ =>
      let (s, may) := streamMaySend true s
      if may then retransmitLoop n (retransmitPacket env k s) else s

/-- The second loop of `send_packets`, at most `n` times round. -/
def newPacketLoop : ℕ → Stream → Stream
  | 0, s => s
  | n + 1, s =>
    let (s, sent) := sendNewPacket env false s
    if sent then newPacketLoop n s else s

/-- More than the packets the write queue can make: each takes a byte or a
buffer of it. -/
def newPacketBound (t : Tx) : ℕ :=
  (t.writeQueue.map fun b => (t.wbufs b).writesz + 1).sum + 1

def sendPackets (s : Stream) : Stream :=
  let s := s.check .sendDead (s.st.dead = false)
  let s := retransmitLoop env s.tx.retransmitQueue.length s
  newPacketLoop env (newPacketBound s.tx) s

/-! ### Tail-loss probe -/

/-- The last packet sent goes out again as the probe. -/
def tlpFromExisting (k : ℕ) (s : Stream) : Stream :=
  let s := retransmitPacket env k (s.withTx fun tx => tx.unlinkInflight k)
  s.withCc fun cc => { cc with
    tlpIsRetrans := true
    tlpInFlight := true
    tlpEndSeq := (s.tx.pkts k).seq
    tlpPermitted := false }

/-- The packet that can be sent again as a tail-loss probe. -/
def tlpCandidate (t : Tx) : Option ℕ :=
  (t.outgoing (t.seq - 1)).filter fun k => !((t.pkts k).lost || (t.pkts k).refCount == 2)

/-- The probe of `udx_tlp_timeout`: a new packet, or else the last one. -/
def sendLossProbe (s : Stream) : Stream :=
  let (s, sent) := sendNewPacket env true s
  if sent then rearmRto true s
  else
    match tlpCandidate s.tx with
    | none => rearmRto false s
    | some k => rearmRto true (tlpFromExisting env k s)

def udxTlpTimeout (s : Stream) : Stream :=
  let s := s.check .tlpConnected (s.st.connected = true)
  if s.tx.remoteAcked = s.tx.seq then s
  else if s.cc.tlpInFlight || !s.cc.tlpPermitted then rearmRto false s
  else sendLossProbe env s

/-! ### RACK -/

/-- What the loop of `rack_detect_loss` counts. -/
structure RackAcc where
  timeout : ℤ := 0
  resending : ℕ := 0
  mtuProbesLost : ℕ := 0

/-- What the loop does about a packet: it ends there, leaves it alone, finds
it lost, or has to wait for it. -/
inductive RackVerdict
  | stop | skip | lost
  | wait (remaining : ℤ)

def rackVerdict (reoWnd : ℕ) (p : Packet) (s : Stream) : RackVerdict :=
  if p.timeSent > s.cc.rackTimeSent then .stop
  else if p.refCount = 2 then .skip
  else if rackSentAfter s.cc.rackTimeSent s.cc.rackNextSeq p.timeSent (p.seq + 1) then
    let remaining : ℤ := (p.timeSent + s.cc.rackRtt + reoWnd : ℕ) - s.io.now
    if remaining ≤ 0 then .lost else .wait remaining
  else .skip

def RackAcc.lost (p : Packet) (acc : RackAcc) : RackAcc :=
  { acc with
    resending := acc.resending + 1
    mtuProbesLost := if p.isMtuProbe then acc.mtuProbesLost + 1 else acc.mtuProbesLost }

def RackAcc.wait (remaining : ℤ) (acc : RackAcc) : RackAcc :=
  { acc with timeout := if remaining > acc.timeout then remaining else acc.timeout }

/-- `mtu_unprobeify_packet` where the packet is a probe. -/
def unprobeIfProbe (k : ℕ) (s : Stream) : Stream :=
  if (s.tx.pkts k).isMtuProbe then mtuUnprobeifyPacket k s else s

/-- A packet RACK finds lost. -/
def rackMarkLost (k : ℕ) (s : Stream) : Stream :=
  let s := s.withCc fun cc => { cc with lost := cc.lost + 1 }
  let s := s.check .rackSize ((s.tx.pkts k).size > 0 ∧ (s.tx.pkts k).size < 1500)
  unprobeIfProbe k (s.withTx fun tx => tx.markLost k)

/-- The loop of `rack_detect_loss` over the inflight queue. -/
def rackLoop (reoWnd : ℕ) : List ℕ → RackAcc → Stream → Stream × RackAcc
  | [], acc, s => (s, acc)
  | k :: rest, acc, s =>
    let p := s.tx.pkts k
    let s := s.check .rackTransmits (p.transmits > 0)
    match rackVerdict reoWnd p s with
    | .stop => (s, acc)
    | .skip => rackLoop reoWnd rest acc s
    | .lost => rackLoop reoWnd rest (acc.lost p) (rackMarkLost k s)
    | .wait remaining => rackLoop reoWnd rest (acc.wait remaining) s

/-- The loss counter leaves out an isolated MTU probe. -/
def rackForgiveProbes (acc : RackAcc) (s : Stream) : Stream :=
  if acc.resending = acc.mtuProbesLost then
    s.withCc fun cc => { cc with lost := cc.lost - BitVec.ofNat 32 acc.mtuProbesLost }
  else s

/-- `rack_detect_loss` after its loop: the loss counter, and fast recovery. -/
def rackEnterRecovery (acc : RackAcc) (s : Stream) : Stream :=
  let s := rackForgiveProbes acc s
  if acc.resending > acc.mtuProbesLost ∧ s.cc.caState = .opened then
    (bbrSaveCwnd (s.withCc fun cc => { cc with caState := .recovery })).withCc fun cc =>
      { cc with highSeq := s.tx.seq, tlpInFlight := false, tlpIsRetrans := false }
  else s

def rackDetectLoss (s : Stream) : Stream × ℕ :=
  let (s, acc) := rackLoop (rackUpdateReoWnd s) s.tx.inflightQueue {} s
  (sendPackets env (rackEnterRecovery acc s), acc.timeout.toNat % 2 ^ 32)

def rackDetectLossAndArmTimer (s : Stream) : Stream × Bool :=
  let (s, timeout) := rackDetectLoss env s
  if timeout > 0 then
    (streamTimerStart .rackReo timeout (s.check .rackClosed (s.st.closed = false)), true)
  else (s, false)

/-- The RTO takes over from the reordering timer, unless a packet sent
meanwhile has started it. -/
def rackRearm (s : Stream) : Stream :=
  if s.tm.pendingTimer ≠ .rto then
    rearmRto (!(s.tm.pendingTimer == .rackReo || s.tm.pendingTimer == .tlp)) s
  else s

def udxRackReoTimeout (s : Stream) : Stream := rackRearm (rackDetectLoss env s).1

/-! ### The other timers of a live stream -/

def udxKeepaliveTimeout (s : Stream) : Stream :=
  let s := sendProbe env (s.check .keepaliveIdle (s.tx.seq = s.tx.remoteAcked))
  streamTimerStart .keepalive s.tm.keepaliveTimeoutMs s

def udxZwpTimeout (s : Stream) : Stream :=
  let s := s.check .zwpConnected (s.st.connected = true)
  let s := s.check .zwpRwnd (s.win.sendRwnd = 0)
  let s := s.check .zwpClosed (s.st.closed = false)
  let s := s.withTm fun tm => { tm with zwpCount := (tm.zwpCount + 1) % 2 ^ 16 }
  let s := sendProbe env s
  let s := s.check .zwpPending (s.tm.pendingTimer = .zwp)
  let s := s.check .zwpQueued
    (s.tx.writesQueuedBytes > 0 ∨ (s.st.ending = true ∧ s.st.ended = false))
  streamTimerStart .zwp (s.cc.rto * 2) s

def pacingTimerTimeout (s : Stream) : Stream := sendPackets env (updatePacingTime s)

end

end Udx
