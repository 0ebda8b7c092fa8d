/-
# Completing writes, closing and destroying

`on_bytes_acked`, the cancel loops of `clear_outgoing_packets`,
`close_stream_internal`, `udx_stream_destroy`, and `udx_rto_timeout`, which
may close the stream. What calls a user callback takes the callbacks' effect
`cb` as an argument.

The lists a socket and the `udx_t` keep, and the streams that relay to this
one, are outside this model of one stream.

Key definitions: `onBytesAcked`, `clearOutgoingPackets`,
`closeStreamInternal`, `udxStreamDestroy`, `udxRtoTimeout`.
-/
import Udx.Sender

namespace Udx

open Serial

variable (env : Env) (cb : Hook)

/-! ### Counting bytes -/

/-- `bytes` of write buffer `b` are acknowledged or, if `cancelled`, given up. -/
def Tx.countBytes (t : Tx) (b bytes : ℕ) (cancelled : Bool) : Tx :=
  let t := { t with writesQueuedBytes := t.writesQueuedBytes - bytes }.setWrite (t.wbufs b).write
    fun w => { w with bytesAcked := w.bytesAcked + bytes }
  t.setWbuf b fun x => { x with
    bytesInflight := if cancelled then x.bytesInflight else x.bytesInflight - bytes
    bytesAcked := x.bytesAcked + bytes }

/-- The asserts of `on_bytes_acked`, on the state it finds. -/
def checkBytes (b bytes : ℕ) (cancelled : Bool) (s : Stream) : Stream :=
  let x := s.tx.wbufs b
  let w := s.tx.writes x.write
  let s := if cancelled then s else s.check .bytesInflight (bytes ≤ x.bytesInflight)
  let s := s.check .wbufAcked (x.bytesAcked + bytes ≤ x.buf.length)
  let s := s.check .writeAcked (w.bytesAcked + bytes ≤ w.size)
  s.check .writesQueued (bytes ≤ s.tx.writesQueuedBytes)

/-- `on_bytes_acked` up to the high watermark. -/
def countBytes (b bytes : ℕ) (cancelled : Bool) (s : Stream) : Stream :=
  (checkBytes b bytes cancelled s).withTx fun tx => tx.countBytes b bytes cancelled

/-- The write queue has fallen below the high watermark it had hit. -/
def drainDue (s : Stream) : Bool :=
  s.win.hitHighWatermark &&
    decide (s.tx.writesQueuedBytes < add32 UDX_HIGH_WATERMARK (sendWindowInBytes s))

def clearHighWatermark (s : Stream) : Stream :=
  s.withWin fun win => { win with hitHighWatermark := false }

/-- `on_drain`, where it is due. -/
def drain (s : Stream) : Stream :=
  if drainDue s then (clearHighWatermark s).invokeIf cb s.handlers.onDrain .drain else s

def onBytesAcked (b bytes : ℕ) (cancelled : Bool) (s : Stream) : Stream :=
  let s := countBytes b bytes cancelled s
  if cancelled then s else drain cb s

/-- `write->bytes_acked == write->size && write->on_ack`. -/
def Tx.writeDone (t : Tx) (w : ℕ) : Bool :=
  decide ((t.writes w).bytesAcked = (t.writes w).size) && (t.writes w).onAck

def completeWrite (w : ℕ) (status : AckStatus) (sack : Bool) (s : Stream) : Stream :=
  s.invokeIf cb (s.tx.writeDone w) (.ack w status sack)

/-! ### Cancelling what was not acknowledged -/

/-- Write buffer `b` gives up `bytes` bytes. -/
def cancelBytes (b bytes : ℕ) (s : Stream) : Stream :=
  let s := onBytesAcked cb b bytes true s
  completeWrite cb (s.tx.wbufs b).write .canceled false s

/-- The slices of a packet that are yet to be cancelled. -/
def setCancelling (bufs : List Chunk) (s : Stream) : Stream :=
  s.withCtl fun ctl => { ctl with cancelling := bufs }

/-- The loop of `cancel_packet`. -/
def cancelBufs : List Chunk → Stream → Stream
  | [], s => s
  | c :: rest, s => cancelBufs rest (cancelBytes cb c.wbuf c.len (setCancelling rest s))

def derefPacket (k : ℕ) (s : Stream) : Stream := s.withTx fun tx => tx.derefPacket k

def cancelPacket (k : ℕ) (s : Stream) : Stream :=
  let bufs := (s.tx.pkts k).bufs
  derefPacket k (cancelBufs cb bufs (setCancelling bufs s))

/-- `udx__cirbuf_remove`. -/
def removeOutgoing (seq : SeqNo) (s : Stream) : Stream := s.withTx fun tx => tx.setOutgoing seq none

/-- The loop of `clear_outgoing_packets` over the sequence numbers, at most
`n` times round. -/
def clearPackets : ℕ → SeqNo → Stream → Stream
  | 0, _, s => s
  | n + 1, seq, s =>
    if seq = s.tx.seq then s
    else
      match s.tx.outgoing seq with
      | none => clearPackets n (seq + 1) s
      | some k => clearPackets n (seq + 1) (cancelPacket cb k (removeOutgoing seq s))

def shiftWriteQueue (rest : List ℕ) (s : Stream) : Stream :=
  s.withTx fun tx => { tx with writeQueue := rest }

/-- The loop of `clear_outgoing_packets` over the write queue, at most `n`
times round. -/
def clearWriteQueue : ℕ → Stream → Stream
  | 0, s => s
  | n + 1, s =>
    match s.tx.writeQueue with
    | [] => s
    | b :: rest =>
      let wbuf := s.tx.wbufs b
      let s := shiftWriteQueue rest s
      clearWriteQueue n (cancelBytes cb b (wbuf.buf.length - wbuf.bytesAcked) s)

def markPktCancelled (s : Stream) : Stream :=
  s.withCtl fun ctl => { ctl with pktCancelled := true }

def clearOutgoingPackets (s : Stream) : Stream :=
  let s := s.check .packetHeld ((s.tx.pkts s.tx.pkt).refCount = 1)
  let s := cancelPacket cb s.tx.pkt (markPktCancelled s)
  let s := clearPackets cb (s.tx.seq - s.tx.remoteAcked).toNat s.tx.remoteAcked s
  clearWriteQueue cb s.tx.writeQueue.length s

def clearIncomingPackets (s : Stream) : Stream := s.withRx fun rx => { rx with sackTree := [] }

/-! ### Closing -/

def udxStreamReadStop (s : Stream) : Stream × Ret :=
  if s.st.reading then
    ((s.withHandlers fun hs => { hs with onRead := false }).withSt fun st =>
      { st with reading := false }, .ok 0)
  else (s, .ok 0)

/-- The ghost mark of the log when a stream becomes DESTROYING or CLOSED. -/
def markDead (s : Stream) : Stream := if s.st.dead then s else s.note .dead

/-- `stream_timewait`. -/
def streamTimewait (s : Stream) : Stream :=
  let timewait : Timewait :=
    { header := udxWriteHeader env 0 s.peer.remoteId s
      dest := s.peer.dest
      due := s.io.now + UDX_STREAM_TIMEWAIT_TIMEOUT_MS }
  s.withIo fun io => { io with timewait := some timewait }

def dropOutgoing (s : Stream) : Stream :=
  s.withTx fun tx => { tx with outgoing := fun _ => none, outgoingLive := false }

def closeHandles (s : Stream) : Stream :=
  s.withTm fun tm =>
    { tm with timer := none, refillPacingTimer := none, pendingPacketPrepare := false }

/-- The end of `close_stream_internal`: the buffers and handles go. -/
def releaseHandles (s : Stream) : Stream :=
  closeHandles (dropOutgoing (udxStreamReadStop (clearIncomingPackets s)).1)

def setClosed (s : Stream) : Stream :=
  s.withSt fun st => { st with closed := true, connected := false }

/-- `close_stream_internal` up to `on_close`. -/
def closeBegin (s : Stream) : Stream :=
  let s := setClosed (markDead (s.check .closeTwice (s.st.closed = false)))
  if s.st.timewaitWanted then streamTimewait env s else s

def closeStreamInternal (err : CloseErr) (s : Stream) : Stream :=
  let s := closeBegin env s
  let s := s.invokeIf cb s.handlers.onClose (.close err)
  releaseHandles (clearOutgoingPackets cb s)

def dropTimewait (s : Stream) : Stream := s.withSt fun st => { st with timewaitWanted := false }

/-- A stream that closes with an error leaves no TIME-WAIT behind. -/
def dropTimewaitOnError (err : CloseErr) (s : Stream) : Stream :=
  if err ≠ .none then dropTimewait s else s

def closeStream (err : CloseErr) (s : Stream) : Stream :=
  let s := dropTimewaitOnError err s
  if s.st.destroying then s else closeStreamInternal env cb err s

def streamOnDestroySend (s : Stream) : Stream := closeStreamInternal env cb .none s

/-- A datagram that libuv copies, and whether libuv queued it. -/
def queueCopy (k : Kind) (dest : Dest) (d : List UInt8) (s : Stream) : Stream × Bool :=
  (sendCopy env k dest d s,
    decide (env.trySend s.io.calls = .again) && env.uvSend s.io.calls)

/-- The destroy packet. The truth value tells whether libuv queued it. -/
def destroySend (s : Stream) : Stream × Bool :=
  let d := (udxWriteHeader env UDX_HEADER_DESTROY s.peer.remoteId s).encode
  queueCopy env .destroy s.peer.dest d ((s.note (.reached .destroySend s.toCore)).withTx Tx.advanceSeq)

/-- The stream becomes DESTROYING. -/
def setDestroying (s : Stream) : Stream :=
  (markDead s).withSt fun st => { st with destroying := true }

/-- `udx_stream_destroy` of a live, connected stream. -/
def destroyConnected (s : Stream) : Stream × Ret :=
  let s := setDestroying s
  if s.peer.relayed then (closeStreamInternal env cb .none s, .ok 0)
  else
    let (s, queued) := destroySend env s
    (if queued then s else streamOnDestroySend env cb s, .ok 1)

def udxStreamDestroy (s : Stream) : Stream × Ret :=
  if s.st.dead then (s, .ok 0)
  else
    let s := dropTimewait s
    if !s.st.connected then (closeStream env cb .none s, .ok 0) else destroyConnected env cb s

/-! ### The retransmission timeout -/

/-- Whether the RTO takes a packet as lost: the oldest one, or one sent more
than a round trip and the reordering window ago. -/
def rtoLost (reoWnd : ℕ) (p : Packet) (s : Stream) : Bool :=
  decide (p.seq = s.tx.remoteAcked) ||
    decide (((p.timeSent + s.cc.rackRtt + reoWnd : ℕ) : ℤ) - s.io.now < 0)

/-- A packet that was lost before stays in the retransmit queue. -/
def rtoKeepLost (k : ℕ) (s : Stream) : Stream :=
  s.withTx fun tx => { tx with retransmitQueue := tx.retransmitQueue ++ [k] }

/-- A packet the RTO finds lost goes to the retransmit queue, unless libuv
still holds it. -/
def rtoMarkLost (k : ℕ) (s : Stream) : Stream :=
  let s := unprobeIfProbe k (s.withCc fun cc => { cc with lost := cc.lost + 1 })
  if (s.tx.pkts k).refCount = 2 then s else s.withTx fun tx => tx.markLost k

/-- The RTO looks at a packet. -/
def rtoLook (reoWnd k : ℕ) (s : Stream) : Stream :=
  if (s.tx.pkts k).lost then rtoKeepLost k s
  else if rtoLost reoWnd (s.tx.pkts k) s then rtoMarkLost k s
  else s

/-- The loop of `udx_rto_timeout` over `n` sequence numbers from `seq`. -/
def rtoLoop (reoWnd : ℕ) : ℕ → SeqNo → Stream → Stream
  | 0, _, s => s
  | n + 1, seq, s =>
    match s.tx.outgoing seq with
    | none => rtoLoop reoWnd n (seq + 1) s
    | some k => rtoLoop reoWnd n (seq + 1) (rtoLook reoWnd k s)

/-- The RTO puts congestion control in the loss state. -/
def rtoEnterLoss (s : Stream) : Stream :=
  (bbrSaveCwnd s).withCc fun cc => { cc with
    highSeq := s.tx.seq
    caState := .loss
    tlpInFlight := false
    tlpIsRetrans := false }

/-- The RTO backs off. -/
def rtoBackOff (s : Stream) : Stream :=
  let s := s.withTm fun tm => { tm with rtoCount := (tm.rtoCount + 1) % 2 ^ 8 }
  streamTimerStart .rto (s.cc.rto * 2) (s.check .rtoClosed (s.st.closed = false))

/-- `udx_rto_timeout` up to the test of how often it has fired. -/
def rtoStart (s : Stream) : Stream :=
  let s := s.withTm fun tm => { tm with pendingTimer := .none }
  let s := s.check .rtoConnected (s.st.connected = true)
  let s := s.check .rtoOutstanding (s.tx.remoteAcked ≠ s.tx.seq)
  (rtoBackOff (rtoEnterLoss s)).withTx fun tx => { tx with retransmitQueue := [] }

/-- `udx_rto_timeout` after that test. -/
def rtoResend (s : Stream) : Stream :=
  let s := rtoLoop (rackUpdateReoWnd s) (s.tx.seq - s.tx.remoteAcked).toNat s.tx.remoteAcked s
  let s := s.withCc fun cc => { cc with cwnd := s.tx.inflightQueue.length + 1 }
  sendPackets env (bbrOnRto s)

def udxRtoTimeout (s : Stream) : Stream :=
  let s := rtoStart s
  if s.tm.rtoCount > UDX_MAX_RTO_TIMEOUTS then closeStream env cb .timedOut s
  else rtoResend env s

end Udx
