/-
# The receive path

`process_packet` and what it calls, one definition for each stretch of code
between two user callbacks or early returns; a stage ends by calling the
next. The red-black tree of SACK blocks is the list of its blocks in order:
they are disjoint and never adjacent, so at most one of them can be what
`udx_sack_tree_find` looks for (`udxSackTreeFind_toList`).

A stream that relays only passes its datagrams on; what the destination does
with them is outside this model.

Key definitions: `processDataPacket`, `sendAck`, `ackPacket`,
`processPacket`.
-/
import Udx.Close

namespace Udx

open Serial

/-! ### The SACK tree -/

/-- `udx_sack_tree_find`. -/
def sackTreeFind (tree : List SackBlock) (seq : SeqNo) : Option SackBlock :=
  tree.find? fun b => decide (¬ seqDiff seq b.start < 0) && decide (¬ seqDiff seq b.stop > 0)

/-- `udx_sack_tree_insert`. -/
def sackTreeInsert (b : SackBlock) : List SackBlock → List SackBlock
  | [] => [b]
  | node :: rest =>
    if seqDiff b.start node.start < 0 then b :: node :: rest
    else node :: sackTreeInsert b rest

/-- A block that has become adjacent to the next one takes its packets. -/
def sackMergeNext (b : SackBlock) : List SackBlock → List SackBlock
  | [] => [b]
  | next :: rest =>
    if next.start = b.stop then
      { b with stop := next.stop, packetQueue := b.packetQueue ++ next.packetQueue } :: rest
    else b :: next :: rest

/-- A packet goes to the end of the block that starts at `start`. -/
def sackAppend (start : SeqNo) (buf : OooBuf) : List SackBlock → List SackBlock
  | [] => []
  | b :: rest =>
    if b.start = start then
      sackMergeNext { b with stop := b.stop + 1, packetQueue := b.packetQueue ++ [buf] } rest
    else b :: sackAppend start buf rest

section

variable (env : Env) (cb : Hook)

/-! ### Taking packets -/

/-- The next packet in line is taken: `ack++`. -/
def takeNext (s : Stream) : Stream :=
  s.withRx fun rx => { rx with ack := rx.ack + 1, taken := rx.taken + 1 }

/-- A payload goes to `on_read` if that is set. -/
def readData (data : List UInt8) (s : Stream) : Stream :=
  if s.handlers.onRead then s.invoke cb (.read data) else s.note .dropped

/-- The ghost entry for a packet that was neither received nor consumed
before. -/
def noteAccept (type : UInt8) (seq : SeqNo) (data : List UInt8) (s : Stream) : Stream :=
  s.note (.accept (s.rx.taken + (seq - s.rx.ack).toNat) type data)

def setSackTree (tree : List SackBlock) (s : Stream) : Stream :=
  s.withRx fun rx => { rx with sackTree := tree }

/-- The tree that keeps a packet out of order, if it is new. -/
def sackTreeHold (tree : List SackBlock) (seq : SeqNo) (buf : OooBuf) : Option (List SackBlock) :=
  match sackTreeFind tree seq with
  | some b => if b.stop ≠ seq then none else some (sackAppend b.start buf tree)
  | none => some (sackAppend seq buf (sackTreeInsert ⟨seq, seq, []⟩ tree))

/-- The slow path of `process_data_packet`: keep the packet in a SACK block. -/
def holdPacket (type : UInt8) (seq : SeqNo) (data : List UInt8) (s : Stream) : Stream :=
  match sackTreeHold s.rx.sackTree seq ⟨type, data⟩ with
  | none => s
  | some tree => setSackTree tree (noteAccept type seq data s)

def processDataPacket (type : UInt8) (seq : SeqNo) (data : List UInt8) (s : Stream) : Stream :=
  if seq = s.rx.ack ∧ hasFlag type UDX_HEADER_DATA = true then
    readData cb data (takeNext (noteAccept type seq data s))
  else holdPacket type seq data s

/-- The packets of a block in line that are yet to be taken. -/
def setDraining (bufs : List OooBuf) (s : Stream) : Stream :=
  s.withCtl fun ctl => { ctl with draining := bufs }

/-- The loop over the packets of a block that has come in line. -/
def drainLoop : List OooBuf → Stream → Stream
  | [], s => s
  | b :: rest, s =>
    let s := takeNext (setDraining rest s)
    if hasFlag b.type UDX_HEADER_DATA then
      let s := readData cb b.data s
      if s.st.dead then s else drainLoop rest s
    else drainLoop rest s

/-! ### Acknowledging -/

/-- The datagram `send_ack` builds. -/
def ackDatagram (s : Stream) : List UInt8 :=
  let sacks := (s.rx.sackTree.take UDX_MAX_SACKS).map fun b => (b.start, b.stop)
  let type := if sacks.length > 0 then UDX_HEADER_SACK else 0
  (udxWriteHeader env type s.peer.remoteId s).encode ++ writeSacks sacks

/-- Whether EOF is due: the ack has come to the END packet. -/
def eofDue (s : Stream) : Bool :=
  s.st.shouldEndRemote && decide (seqCompare s.rx.remoteEnded s.rx.ack ≤ 0)

def setEndedRemote (s : Stream) : Stream := s.withSt fun st => { st with endedRemote := true }

def reportEof (s : Stream) : Stream :=
  if eofDue s then (setEndedRemote s).invokeIf cb s.handlers.onRead .eof else s

/-- The asserts of `send_ack` before it closes the stream. -/
def checkEnded (s : Stream) : Stream :=
  let s := s.check .endRetransmitQueue (s.tx.retransmitQueue.length = 0)
  s.check .endWriteQueue (s.tx.writeQueue.length = 0)

def closeIfAllEnded (s : Stream) : Stream :=
  if s.st.allEnded then closeStream env cb .none (checkEnded s) else s

def setAckNeeded (needed : Bool) (s : Stream) : Stream :=
  s.withRx fun rx => { rx with ackNeeded := needed }

def sendAck (s : Stream) : Stream :=
  if s.peer.socket = none then setAckNeeded true s
  else
    let s := sendCopy env .ack s.peer.dest (ackDatagram env s) s
    closeIfAllEnded env cb (reportEof cb s)

/-! ### Being acknowledged -/

/-- A probe that arrived raises the MTU. -/
def Mtu.probeAcked (m : Mtu) : Mtu :=
  let m := { m with probeCount := 0, mtu := m.probeSize }
  if m.probeSize = m.max then { m with state := .searchComplete }
  else
    { m with
      probeSize := if m.probeSize + UDX_MTU_STEP ≥ m.max then m.max else m.probeSize + UDX_MTU_STEP
      probeWanted := true }

/-- The MTU search after an ack: the first one of all starts it. -/
def Mtu.acked (isMtuProbe : Bool) (m : Mtu) : Mtu :=
  let m := if m.state = .search ∧ m.probeCount > 0 ∧ isMtuProbe = true then m.probeAcked else m
  if m.state = .base ∨ m.state = .error then { m with state := .search, probeWanted := true } else m

/-- The round trip of a packet sent once, for the estimators. -/
def sampleRtt (retransmitted : Bool) (rtt : ℕ) (s : Stream) : Stream :=
  if retransmitted then s
  else
    updateRtt rtt (s.withCc fun cc =>
      { cc with rttMin := cc.rttMin.applyMin UDX_RTT_MIN_WINDOW_MS s.io.now rtt })

/-- `rack_rtt`, and the packet sent last of those delivered. -/
def rackUpdate (p : Packet) (rtt : ℕ) (next : SeqNo) (s : Stream) : Stream :=
  if !p.retransmitted || decide (rtt ≥ udxRttMin s) then
    (s.withCtl fun ctl => { ctl with rs.rttMs := rtt }).withCc fun cc =>
      let cc := { cc with rackRtt := rtt }
      if rackSentAfter p.timeSent next cc.rackTimeSent cc.rackNextSeq then
        { cc with rackTimeSent := p.timeSent, rackNextSeq := next }
      else cc
  else s

/-- A packet acknowledged after a later one shows reordering. -/
def rackDetectReordering (retransmitted : Bool) (next : SeqNo) (s : Stream) : Stream :=
  s.withCc fun cc =>
    if seqCompare next cc.rackFack > 0 then { cc with rackFack := next }
    else if seqCompare next cc.rackFack < 0 ∧ retransmitted = false then
      { cc with reorderingSeen := true }
    else cc

/-- The round trip of an acknowledged packet, for the estimators and RACK. -/
def rackAcked (p : Packet) (seq : SeqNo) (s : Stream) : Stream :=
  let rtt := clampRtt (s.io.now - p.timeSent) s
  let rtt := if !p.retransmitted && rtt == 0 then 1 else rtt
  let s := rackUpdate p rtt (seq + 1) (sampleRtt p.retransmitted rtt s)
  rackDetectReordering p.retransmitted (seq + 1) s

/-- Packet `k` leaves the outgoing buffer and its queue. -/
def Tx.removeAcked (t : Tx) (seq : SeqNo) (k : ℕ) (sack : Bool) : Tx :=
  let t := t.setOutgoing seq none
  let t := if sack then { t with sacks := t.sacks + 1 } else t
  if (t.pkts k).lost then { t with retransmitQueue := t.retransmitQueue.erase k }
  else t.unlinkInflight k

/-- Where the loop over the slices of packet `k` is. -/
def setAcking (bufs : List Chunk) (due : Option ℕ) (s : Stream) : Stream :=
  s.withCtl fun ctl => { ctl with acking := bufs, ackDue := due }

def setAckPkt (k : ℕ) (s : Stream) : Stream := s.withCtl fun ctl => { ctl with ackPkt := some k }

/-- `ack_packet` up to its loop over the packet's slices. -/
def takeAcked (seq : SeqNo) (k : ℕ) (sack : Bool) (s : Stream) : Stream :=
  let p := s.tx.pkts k
  let s := (s.note (.reached (.ackTake k) s.toCore)).withMtu (Mtu.acked p.isMtuProbe)
  let s := setAckPkt k (setAcking p.bufs none (s.withTx fun tx => tx.removeAcked seq k sack))
  rackAcked p seq (udxRatePktDelivered p s)

/-- One slice of an acknowledged packet is counted. -/
def ackBytes (c : Chunk) (rest : List Chunk) (s : Stream) : Stream :=
  let s := s.withTx fun tx => { tx with bytesAcked := tx.bytesAcked + c.len }
  countBytes c.wbuf c.len false (setAcking rest (some c.wbuf) s)

def clearAckDue (s : Stream) : Stream := s.withCtl fun ctl => { ctl with ackDue := none }

/-- The write of write buffer `b` is completed, if that was all of it. -/
def ackWrite (b : ℕ) (sack : Bool) (s : Stream) : Stream :=
  completeWrite cb (s.tx.wbufs b).write .ok sack (clearAckDue s)

/-- The loop of `ack_packet` over the slices of the packet. It is left where
a callback has destroyed the stream, which the truth value tells. -/
def ackBufs (sack : Bool) : List Chunk → Stream → Stream × Bool
  | [], s => (s, false)
  | c :: rest, s =>
    let s := drain cb (ackBytes c rest s)
    if s.st.dead then (s, true)
    else
      let s := ackWrite cb c.wbuf sack s
      if s.st.dead then (s, true) else ackBufs sack rest s

/-- What `ack_packet` returns: 0, 1, 2. -/
inductive AckResult
  | absent | acked | stop
  deriving DecidableEq, Repr

/-- The end of `ack_packet`: the stream has ended if that was all. -/
def ackEnd (s : Stream) : Stream × AckResult :=
  if s.st.shouldEnd = true ∧ s.tx.inflightQueue.length = 0 ∧ s.tx.retransmitQueue.length = 0 ∧
      s.tx.writeQueue.length = 0 then
    (s.withSt fun st => { st with ended := true }, .stop)
  else (s, .acked)

/-- `ack_packet` on packet `k`, found at `seq`. -/
def ackFound (seq : SeqNo) (k : ℕ) (sack : Bool) (s : Stream) : Stream × AckResult :=
  let s := takeAcked seq k sack s
  let (s, left) := ackBufs cb sack (s.tx.pkts k).bufs s
  let s := derefPacket k s
  if left then (s, .stop) else ackEnd s

/-- `uint32_t` decrement. -/
def pred32 (n : ℕ) : ℕ := if n = 0 then 2 ^ 32 - 1 else n - 1

/-- A packet that is not outstanding was acknowledged by a SACK before. -/
def ackMissing (sack : Bool) (s : Stream) : Stream :=
  if sack then s else s.withTx fun tx => { tx with sacks := pred32 tx.sacks }

def ackPacket (seq : SeqNo) (sack : Bool) (s : Stream) : Stream × AckResult :=
  let s := s.check .cirbufNull (s.tx.outgoingLive = true)
  match s.tx.outgoing seq with
  | none => (ackMissing sack s, .absent)
  | some k => ackFound cb seq k sack s

def countDelivered (s : Stream) : Stream :=
  s.withCc fun cc => { cc with delivered := cc.delivered + 1 }

/-- Where the cumulative ack loop is. -/
def setCursor (cursor : Option SeqNo) (s : Stream) : Stream :=
  s.withCtl fun ctl => { ctl with cursor := cursor }

/-- The cumulative ack loop, at most `n` times round. The truth value tells
whether it was left by `ended`. -/
def ackLoop (ack : SeqNo) : ℕ → SeqNo → Stream → Stream × Bool
  | 0, _, s => (s, false)
  | n + 1, p, s =>
    if seqCompare p ack < 0 then
      match ackPacket cb p false (setCursor (some (p + 1)) s) with
      | (s, .stop) => (s, true)
      | (s, .acked) => ackLoop ack n (p + 1) (countDelivered s)
      | (s, .absent) => ackLoop ack n (p + 1) s
    else (s, false)

def udxSackIsValid (start stop : SeqNo) (s : Stream) : Bool :=
  if seqDiff stop s.tx.seq > 0 then false
  else if seqDiff start stop ≥ 0 then false
  else if seqDiff start s.tx.seq ≥ 0 then false
  else if seqDiff start s.tx.remoteAcked < 0 then false
  else true

/-- The loop over one SACK range, `n` sequence numbers from `p`. -/
def sackRange : ℕ → SeqNo → Stream → Stream
  | 0, _, s => s
  | n + 1, p, s =>
    match ackPacket cb p true s with
    | (s, .stop) => s
    | (s, .acked) => sackRange n (p + 1) (countDelivered s)
    | (s, .absent) => sackRange n (p + 1) s

def setSacksLeft (sacks : List (SeqNo × SeqNo)) (s : Stream) : Stream :=
  s.withCtl fun ctl => { ctl with sacksLeft := sacks }

def sackLoop : List (SeqNo × SeqNo) → Stream → Stream
  | [], s => s
  | (start, stop) :: rest, s =>
    let s := setSacksLeft rest s
    if udxSackIsValid start stop s then
      sackLoop rest (sackRange cb (stop - start).toNat start s)
    else sackLoop rest s

/-! ### process_packet -/

/-- Congestion control, for a datagram that found data in flight. -/
def bbrPacket (p : RxPacket) (delivered : ℕ) (s : Stream) : Stream :=
  if p.dataInflight then
    let s := udxRateGen delivered (seqDiff s.cc.lost p.lost) s
    bbrMain env s.ctl.rs s
  else s

def setProcessing (processing : Bool) (s : Stream) : Stream :=
  s.withCtl fun ctl => { ctl with processing := processing }

/-- The end of `process_packet`: congestion control, and more packets. -/
def finishPacket (p : RxPacket) (delivered : ℕ) (s : Stream) : Stream :=
  setProcessing false (sendPackets env (bbrPacket env p delivered s))

/-- What is left to acknowledge: data and END packets are answered. -/
def answerPacket (p : RxPacket) (delivered : ℕ) (s : Stream) : Stream :=
  if hasFlag p.h.type UDX_HEADER_DATA_OR_END then
    let s := sendAck env cb s
    if s.st.dead then s else finishPacket env p delivered s
  else finishPacket env p delivered s

/-- The timer of an idle stream: the keepalive, if it has one. -/
def startKeepalive (s : Stream) : Stream :=
  if s.tm.keepaliveTimeoutMs ≠ 0 then streamTimerStart .keepalive s.tm.keepaliveTimeoutMs s
  else streamTimerStop s

/-- There is more to send than the bytes already packetized: data or the END
packet. -/
def sendQueued (s : Stream) : Bool :=
  decide (s.tx.writesQueuedBytes > 0) || (s.st.ending && !s.st.ended)

/-- The timer of a stream that has nothing outstanding any more. -/
def timerFullAck (s : Stream) : Stream :=
  let s := s.check .fullAckQueues
    (s.tx.inflightQueue.length = 0 ∧ s.tx.retransmitQueue.length = 0)
  if s.win.sendRwnd = 0 ∧ sendQueued s = true then streamTimerStart .zwp s.cc.rto s
  else startKeepalive s

/-- The timers after something was delivered. -/
def timerDelivered (s : Stream) : Stream :=
  if s.tx.remoteAcked = s.tx.seq then timerFullAck s
  else s.withTm fun tm => { tm with nextRtoTs := s.io.now + s.cc.rto }

/-- Timers and loss detection after something was delivered. The truth value
tells whether `arm_rto_or_tlp` stands. -/
def afterDelivery (p : RxPacket) (s : Stream) : Stream × Bool :=
  let arm := decide (s.tx.remoteAcked ≠ s.tx.seq) && p.ackAdvanced && p.dataInflight
  let (s, armed) := rackDetectLossAndArmTimer env (timerDelivered s)
  (s, arm && !armed)

def armRtoOrTlp (s : Stream) : Stream :=
  let (s, armed) := scheduleLossProbe true s
  if armed then s else rearmRto true s

/-- Timers and loss detection after the SACK ranges. -/
def settleAcks (p : RxPacket) (delivered : ℕ) (s : Stream) : Stream :=
  let (s, arm) :=
    if delivered > 0 then afterDelivery env p s else (s, p.ackAdvanced && p.dataInflight)
  if arm then armRtoOrTlp s else s

/-- How many packets the datagram acknowledged. -/
def deliveredBy (p : RxPacket) (s : Stream) : ℕ := (s.cc.delivered - p.delivered).toNat

def afterSacks (p : RxPacket) (s : Stream) : Stream :=
  if s.st.dead then s
  else answerPacket env cb p (deliveredBy p s) (settleAcks env p (deliveredBy p s) s)

/-- The timer of a stream that has ended. -/
def timerEnded (s : Stream) : Stream :=
  if s.tx.remoteAcked = s.tx.seq then startKeepalive s else s

/-- The remote has acknowledged our END. -/
def processEnded (s : Stream) : Stream :=
  if s.st.dead then s
  else
    let s := timerEnded s
    if s.st.allEnded then closeStream env cb .none s else sendAck env cb s

def setRemoteAcked (ack : SeqNo) (s : Stream) : Stream :=
  (s.withTx fun tx => { tx with remoteAcked := ack }).withTm fun tm => { tm with rtoCount := 0 }

/-- `remote_acked` after the cumulative ack loop. -/
def advanceRemoteAcked (p : RxPacket) (s : Stream) : Stream :=
  let s := setCursor none s
  if p.ackAdvanced then setRemoteAcked p.h.ack s else s

/-- The locals of the ack loops. -/
def startAcks (p : RxPacket) (s : Stream) : Stream :=
  s.withCtl fun ctl =>
    { ctl with rs := {}, cursor := some p.priorRemoteAcked, sacksLeft := p.sacks }

def processAcks (p : RxPacket) (s : Stream) : Stream :=
  let n := (p.h.ack - p.priorRemoteAcked).toNat
  let (s, ended) := ackLoop cb p.h.ack n p.priorRemoteAcked (startAcks p s)
  let s := advanceRemoteAcked p s
  if ended then processEnded env cb s else afterSacks env cb p (sackLoop cb p.sacks s)

def detectLossRepairedByLossProbe (ack : SeqNo) (s : Stream) : Stream :=
  s.withCc fun cc =>
    if cc.tlpInFlight = true ∧ seqCompare ack cc.tlpEndSeq ≥ 0 then
      if !cc.tlpIsRetrans then { cc with tlpInFlight := false }
      else if seqCompare ack cc.tlpEndSeq > 0 then { cc with tlpInFlight := false }
      else cc
    else cc

def leaveRecovery (ack : SeqNo) (s : Stream) : Stream :=
  let s := s.note (.reached (.episode ack) s.toCore)
  s.withCc fun cc =>
    if seqCompare ack cc.highSeq > 0 ∧ (cc.caState = .recovery ∨ cc.caState = .loss) then
      { cc with caState := .opened }
    else cc

/-- The loss probe and the recovery episode the ack may end. -/
def processLossState (p : RxPacket) (s : Stream) : Stream :=
  processAcks env cb p (leaveRecovery p.h.ack (detectLossRepairedByLossProbe p.h.ack s))

def remoteChanged (s : Stream) : Stream :=
  s.withPeer fun peer => { peer with remoteChanging := false }

/-- The change of remote is over once all sent before it is acknowledged. -/
def processRemoteChange (p : RxPacket) (s : Stream) : Stream :=
  if s.peer.remoteChanging = true ∧ seqDiff p.h.ack s.peer.seqOnRemoteChanged ≥ 0 then
    let s := (remoteChanged s).invokeIf cb s.handlers.onRemoteChanged .remoteChanged
    if s.st.dead then s else processLossState env cb p s
  else processLossState env cb p s

/-- A window that opens ends the probing for it. -/
def stopZwp (rwnd : ℕ) (s : Stream) : Stream :=
  if rwnd > 0 ∧ s.tm.pendingTimer = .zwp then streamTimerStop s else s

/-- Whether the window a datagram carries is newer than the one known. -/
def windowIsNew (h : Header) (s : Stream) : Bool :=
  decide (seqCompare h.ack s.tx.remoteAcked ≥ 0) &&
    decide (seqCompare s.win.sendWl1 h.seq < 0 ∨
      (s.win.sendWl1 = h.seq ∧ seqCompare s.win.sendWl2 h.ack ≤ 0))

def Win.update (h : Header) (win : Win) : Win :=
  { win with sendRwnd := h.rwnd.toNat, sendWl1 := h.seq, sendWl2 := h.ack }

def updateSendWindow (h : Header) (s : Stream) : Stream :=
  if windowIsNew h s then (stopZwp h.rwnd.toNat s).withWin (Win.update h) else s

/-- The ack of a datagram, unless it is out of bounds. -/
def processAck (p : RxPacket) (s : Stream) : Stream :=
  if seqCompare s.tx.seq p.h.ack < 0 then s
  else processRemoteChange env cb p (updateSendWindow p.h (setProcessing true s))

/-- The read queue, where its first block has come in line. -/
def processReadQueue (p : RxPacket) (s : Stream) : Stream :=
  match s.rx.sackTree with
  | [] => processAck env cb p s
  | block :: rest =>
    if s.st.shouldRead = true ∧ block.start = s.rx.ack then
      let s := setDraining block.packetQueue (setSackTree rest s)
      let s := drainLoop cb block.packetQueue s
      -- only a callback of the loop can have destroyed the stream
      if s.st.dead then s else processAck env cb p s
    else processAck env cb p s

def processMessage (p : RxPacket) (s : Stream) : Stream :=
  if hasFlag p.h.type UDX_HEADER_MESSAGE && s.handlers.onRecv then
    let s := s.invoke cb (.recv p.data)
    if s.st.dead then s else processReadQueue env cb p s
  else processReadQueue env cb p s

def setEndingRemote (seq : SeqNo) (s : Stream) : Stream :=
  (s.withSt fun st => { st with endingRemote := true }).withRx fun rx =>
    { rx with remoteEnded := seq }

/-- The END and DESTROY bits of a packet that is not old. -/
def processEndBits (p : RxPacket) (s : Stream) : Stream :=
  let s := if hasFlag p.h.type UDX_HEADER_END then setEndingRemote p.h.seq s else s
  if hasFlag p.h.type UDX_HEADER_DESTROY then closeStream env cb .connReset s
  else processMessage env cb p s

/-- The payload of a packet that is causally newer than what was taken, or
the same. -/
def processPayload (p : RxPacket) (s : Stream) : Stream :=
  if seqCompare s.rx.ack p.h.seq ≤ 0 then
    if hasFlag p.h.type UDX_HEADER_DATA_OR_END && s.st.shouldRead then
      let s := processDataPacket cb p.h.type p.h.seq p.data s
      if s.st.dead then s else processEndBits env cb p s
    else processEndBits env cb p s
  else processMessage env cb p s

def relaySeq (seq : SeqNo) (s : Stream) : Stream :=
  (s.note (.reached (.relay seq) s.toCore)).withTx fun tx => { tx with seq := if seqCompare tx.seq seq < 0 then seq else tx.seq }

/-- `relay_packet`, less the forwarding. -/
def relayPacket (h : Header) (s : Stream) : Stream :=
  let s := relaySeq h.seq s
  if hasFlag h.type UDX_HEADER_DESTROY then closeStream env cb .connReset s else s

/-- What `process_packet` reads before it does anything. -/
def rxPacket (h : Header) (d data : List UInt8) (s : Stream) : RxPacket :=
  { h := h
    data := data
    sacks := readSacks d UDX_HEADER_SIZE (nsackBlocks h d)
    delivered := s.cc.delivered
    lost := s.cc.lost
    priorRemoteAcked := s.tx.remoteAcked
    ackAdvanced := decide (seqDiff h.ack s.tx.remoteAcked > 0)
    dataInflight := decide (s.tx.remoteAcked ≠ s.tx.seq) }

def setPacket (p : RxPacket) (s : Stream) : Stream :=
  s.withCtl fun ctl => { ctl with packet := some p }

/-- A datagram that passed the firewall. -/
def processHeader (h : Header) (d : List UInt8) (s : Stream) : Stream :=
  if s.peer.relayTo then relayPacket env cb h s
  else if hasFlag h.type UDX_HEADER_HEARTBEAT then sendAck env cb s
  else
    match payload h d with
    | none => s
    | some data =>
      let p := rxPacket h d data s
      processPayload env cb p (setPacket p s)

/-- `process_timewait`. -/
def processTimewait (type : UInt8) (s : Stream) : Stream :=
  match s.io.timewait with
  | some tw =>
    if hasFlag type UDX_HEADER_DATA_OR_END then
      sendCopy env .timewait tw.dest tw.header.encode s
    else s
  | none => s

/-- A datagram that came in on the stream's own socket, or on another. -/
def processPacket (d : List UInt8) (same : Bool) (s : Stream) : Stream :=
  match parse d with
  | none => s
  | some h =>
    if h.remoteId ≠ s.peer.localId then s
    else if s.st.closed then processTimewait env h.type s
    else if s.st.dead then s
    else if !same && s.handlers.onFirewall then
      let refused := env.firewall s.io.calls
      let s := (s.invoke cb .firewall).asked
      if refused || s.st.dead then s else processHeader env cb h d s
    else processHeader env cb h d s

end

end Udx
