/-
# The moves of a stream

A run of the model cut at its callbacks: a move is a stretch of code that
calls no user callback, or ends by calling one, with what the code has checked
on the way as its hypotheses. API calls, and so callbacks, are paths of call
moves (`CallPath`); events are paths of event moves and calls (`Path`). An
invariant is proved once for each move and then holds along every path.

Key definitions: `PlainMove`, `CallMove`, `AckMove`, `RecvMove`, `Move`,
`CallPath`, `Path`.
Key theorems: `CallPath.preserves`, `Path.preserves`.
-/
import Udx.Api

namespace Udx

open Serial

/-! ### Calls and events without callbacks -/

/-- Calls that never call back. -/
def Call.plain : Call → Bool
  | .connect .. | .send .. | .destroy | .teardown => false
  | _ => true

/-- The hook of callbacks that do nothing. -/
def Hook.quiet : Hook := fun _ s => s

/-- Events that call back in no state like this one. -/
def Event.quiet (s : Stream) : Event → Bool
  | .timer =>
    match s.tm.timer with
    | some (.rto, due) => decide (due > s.io.now) ||
        decide ((s.tm.rtoCount + 1) % 2 ^ 8 ≤ UDX_MAX_RTO_TIMEOUTS)
    | _ => true
  | .copyDone i =>
    match (s.io.copies[i]?).map UvCopy.kind with
    | some Kind.destroy | some (Kind.message true) => false
    | _ => true
  | .pacing | .prepare | .uvSent _ | .uvDone _ | .copySent _ | .tick _ | .timewaitTimeout => true
  | _ => false

section

variable (env : Env)

/-! ### Stretches of code -/

/-- `close_stream_internal` up to its clearing of packets. -/
def closeStart (err : CloseErr) (s : Stream) : Stream :=
  let s := closeBegin env s
  s.announce s.handlers.onClose (.close err)

/-- `close_stream` up to there. -/
def closeUnlessDestroying (err : CloseErr) (s : Stream) : Stream :=
  let s := dropTimewaitOnError err s
  if s.st.destroying then s else closeStart env err s

/-- `udx_stream_destroy` of a connected stream, up to the completion of the
destroy packet, or to the close of a stream that relays. -/
def destroyStart (s : Stream) : Stream :=
  let s := setDestroying s
  if s.peer.relayed then closeStart env .none s else (destroySend env s).1

/-- The destination of a relay is gone, and the stream with it. -/
def relayGone (s : Stream) : Stream :=
  let s := clearRelayTo s
  if s.st.dead then s
  else
    let s := dropTimewait s
    if !s.st.connected then closeStart env .none s else destroyStart env s

/-- `send_ack` up to the EOF callback. -/
def ackOut (s : Stream) : Stream :=
  let s := sendCopy env .ack s.peer.dest (ackDatagram env s) s
  if eofDue s then
    let s := setEndedRemote s
    s.announce s.handlers.onRead .eof
  else s

/-- `send_ack` of a stream that has ended on both sides. -/
def closeEnded (s : Stream) : Stream := closeUnlessDestroying env .none (checkEnded s)

/-- The packet in construction is cancelled first. -/
def cancelPkt (s : Stream) : Stream :=
  let s := s.check .packetHeld ((s.tx.pkts s.tx.pkt).refCount = 1)
  setCancelling (s.tx.pkts s.tx.pkt).bufs (markPktCancelled s)

/-- An outgoing packet is cancelled. -/
def cancelSeq (seq : SeqNo) (k : ℕ) (s : Stream) : Stream :=
  setCancelling (s.tx.pkts k).bufs (removeOutgoing seq s)

/-- The completion of a write that is given up. -/
def announceCancel (b : ℕ) (s : Stream) : Stream :=
  let w := (s.tx.wbufs b).write
  s.announce (s.tx.writeDone w) (.ack w .canceled false)

/-- One slice of a cancelled packet. -/
def cancelChunk (c : Chunk) (rest : List Chunk) (s : Stream) : Stream :=
  announceCancel c.wbuf (countBytes c.wbuf c.len true (setCancelling rest s))

/-- One write buffer of the write queue is cancelled. -/
def cancelQueued (b : ℕ) (rest : List ℕ) (s : Stream) : Stream :=
  let wbuf := s.tx.wbufs b
  announceCancel b (countBytes b (wbuf.buf.length - wbuf.bytesAcked) true (shiftWriteQueue rest s))

/-- The retransmission timeout that gives up. -/
def rtoGiveUp (s : Stream) : Stream :=
  closeUnlessDestroying env .timedOut (rtoStart (clearTimer s))

/-- A payload that is passed to `on_read`, or dropped. -/
def announceRead (data : List UInt8) (s : Stream) : Stream :=
  if s.handlers.onRead then s.note (.callback (.read data)) else s.note .dropped

/-- One packet of the block being drained. -/
def drainTake (b : OooBuf) (rest : List OooBuf) (s : Stream) : Stream :=
  let s := takeNext (setDraining rest s)
  if hasFlag b.type UDX_HEADER_DATA then announceRead b.data s else s

/-- The send window, and the end of a change of remote. -/
def windowStage (p : RxPacket) (s : Stream) : Stream :=
  let s := updateSendWindow p.h (setProcessing true s)
  if s.peer.remoteChanging = true ∧ seqDiff p.h.ack s.peer.seqOnRemoteChanged ≥ 0 then
    (remoteChanged s).announce s.handlers.onRemoteChanged .remoteChanged
  else s

/-- The loss probe and the recovery episode, up to the ack loop. -/
def ackInit (p : RxPacket) (s : Stream) : Stream :=
  startAcks p (leaveRecovery p.h.ack (detectLossRepairedByLossProbe p.h.ack s))

/-- `ack_packet` on a packet that was SACKed before. -/
def ackAbsent (sack : Bool) (s : Stream) : Stream :=
  ackMissing sack (s.check .cirbufNull (s.tx.outgoingLive = true))

/-- `ack_packet` up to its loop. -/
def ackTake (seq : SeqNo) (k : ℕ) (sack : Bool) (s : Stream) : Stream :=
  takeAcked seq k sack (s.check .cirbufNull (s.tx.outgoingLive = true))

/-- One slice of an acknowledged packet, up to `on_drain`. -/
def chunkStage (c : Chunk) (rest : List Chunk) (s : Stream) : Stream :=
  let s := ackBytes c rest s
  if drainDue s then (clearHighWatermark s).announce s.handlers.onDrain .drain else s

/-- The completion of the write of write buffer `b`. -/
def completeStage (b : ℕ) (sack : Bool) (s : Stream) : Stream :=
  let w := (s.tx.wbufs b).write
  (clearAckDue s).announce (s.tx.writeDone w) (.ack w .ok sack)

/-- The stream after `ack_packet`, as its callers go on with it. -/
def afterAck : Stream × AckResult → Stream
  | (s, .acked) => countDelivered s
  | (s, _) => s

/-- The end of `ack_packet`, and the count of what it delivered. -/
def ackDone (k : ℕ) (s : Stream) : Stream := afterAck (ackEnd (derefPacket k s))

/-- The END packet was acknowledged, and no packet is out. -/
def Stream.EndAcked (s : Stream) : Prop :=
  s.st.ended = true ∧ s.tx.inflightQueue = [] ∧ s.tx.retransmitQueue = []

/-- The call goes on to set the remote. -/
def Entry.sets : Entry → Bool
  | .call (.connect ..) pre => !(pre.st.dead || pre.io.teardown) && !pre.st.connected
  | .call (.changeRemote ..) pre => !(pre.st.dead || pre.io.teardown) && pre.st.connected
  | _ => false

/-! ### Moves -/

/-- Moves that any call makes, on a closed stream too. -/
inductive PlainMove : Stream → Stream → Prop
  | call (c : Call) (s : Stream) (hc : c.plain = true) : PlainMove s (call env Hook.quiet c s)
  | enter (c : Call) (s : Stream) (hc : c.plain = false)
    (hset : (Entry.call c s.toCore).sets = false) : PlainMove s (s.note (.call c s.toCore))
  | result (r : Ret) (s : Stream) : PlainMove s (s.note (.result r))
  | returned (c : Callback) (s : Stream) : PlainMove s (s.note (.returned c s.toCore))
  | teardown (s : Stream) : PlainMove s (setTeardown s)

/-- What `udx_stream_connect` finds after its deferred ack: what the call
found, or what the EOF callback left. -/
def FoundBy (pre : Core) (s : Stream) : Prop :=
  s.tx = pre.tx ∧ s.tm = pre.tm ∧ s.win = pre.win ∨
    ∃ post, .returned .eof post ∈ s.log ∧ post.ctl.connecting = true ∧
      s.tx = post.tx ∧ s.tm = post.tm ∧ s.win = post.win ∧ s.st = post.st

/-- Moves of an API call. -/
inductive CallMove : Stream → Stream → Prop
  | plain {s s'} : PlainMove env s s' → CallMove s s'
  | bind (socket : Socket) (id : SeqNo) (addr : SockAddr) (s : Stream)
    (hset : (Entry.call (.connect socket id addr) s.toCore).sets = true) :
    CallMove s (connectBind env socket id addr (s.note (.call (.connect socket id addr) s.toCore))).1
  /-- The keepalive timer of `udx_stream_connect`. -/
  | keepalive (s : Stream) (pre : Core) (socket : Socket) (id : SeqNo) (addr : SockAddr)
    (hdead : s.st.dead = false) (hpre : .call (.connect socket id addr) pre ∈ s.log)
    (hconn : pre.st.connected = false) (hlive : pre.st.dead = false)
    (hfound : FoundBy pre s) : CallMove s (connectKeepalive s)
  | message (data : List UInt8) (onSend : Bool) (s : Stream) (hconn : s.st.connected = true) :
    CallMove s ((messageSend env data onSend s).1.announce (messageSend env data onSend s).2 .sent)
  | deferAck (s : Stream) (hs : s.peer.socket = none) : CallMove s (setAckNeeded true s)
  | ackOut (s : Stream) (hs : s.peer.socket ≠ none) : CallMove s (ackOut env s)
  | closeEnded (s : Stream) (hs : s.st.allEnded = true) : CallMove s (closeEnded env s)
  | dropTimewait (s : Stream) : CallMove s (dropTimewait s)
  | destroyStart (s : Stream) (hdead : s.st.dead = false) (hconn : s.st.connected = true) :
    CallMove s (destroyStart env s)
  | close (err : CloseErr) (s : Stream)
    (hs : s.st.destroying = true ∨ s.st.connected = false ∨ s.st.allEnded = true ∨ err ≠ .none) :
    CallMove s (closeStart env err s)
  | cancelPkt (s : Stream) (hs : s.st.closed = true) : CallMove s (cancelPkt s)
  | cancelSeq (seq : SeqNo) (k : ℕ) (s : Stream) (hs : s.st.closed = true)
    (hk : s.tx.outgoing seq = some k) : CallMove s (cancelSeq seq k s)
  | cancelChunk (c : Chunk) (rest : List Chunk) (s : Stream) (hs : s.st.closed = true)
    (hc : s.ctl.cancelling = c :: rest) : CallMove s (cancelChunk c rest s)
  | cancelDone (k : ℕ) (s : Stream) (hs : s.st.closed = true) (hc : s.ctl.cancelling = []) :
    CallMove s (derefPacket k s)
  | cancelQueued (b : ℕ) (rest : List ℕ) (s : Stream) (hs : s.st.closed = true)
    (hb : s.tx.writeQueue = b :: rest) : CallMove s (cancelQueued b rest s)
  | release (s : Stream) (hs : s.st.closed = true) (hpkt : s.ctl.pktCancelled = true)
    (hc : s.ctl.cancelling = []) (hq : s.tx.writeQueue = [])
    (hout : ∀ a, (a - s.tx.remoteAcked).toNat < (s.tx.seq - s.tx.remoteAcked).toNat →
      s.tx.outgoing a = none) : CallMove s (releaseHandles s)

/-- Paths of an API call; the deferred ack of `udx_stream_connect` is
bracketed by its mark. -/
inductive CallPath : Stream → Stream → Prop
  | refl (s : Stream) : CallPath s s
  | tail {s t u} : CallPath s t → CallMove env t u → CallPath s u
  | connecting {s t u} : CallPath s t → CallPath (setConnecting true t) u →
    CallPath s (setConnecting t.ctl.connecting (setAckNeeded false u))

/-- Moves of an event that are not about a datagram of the peer. -/
inductive LoopMove : Stream → Stream → Prop
  | quiet (e : Event) (s : Stream) (he : e.quiet s = true) (hidle : s.ctl = s.ctl.idle) :
    LoopMove s (step env Hook.quiet e s)
  | begin (e : Event) (s : Stream) (hidle : s.ctl = s.ctl.idle) : LoopMove s (beginEvent e s)
  | finish (s : Stream) (hcur : s.ctl.cursor = none)
    (hset : s.st.dead = true ∨ s.ctl.acking = [] ∧ s.ctl.ackDue = none ∧ s.ctl.draining = [] ∧
      (s.ctl.processing = false ∨ s.st.ended = true)) : LoopMove s (finishEvent s)
  | asked (s : Stream) : LoopMove s s.asked
  | callback (c : Callback) (s : Stream) (hc : c = .firewall ∨ c = .sent) :
    LoopMove s (s.note (.callback c))
  | giveUp (s : Stream) (due : ℕ) (ht : s.tm.timer = some (.rto, due))
    (hcount : (s.tm.rtoCount + 1) % 2 ^ 8 > UDX_MAX_RTO_TIMEOUTS) (hdue : ¬ due > s.io.now)
    (hev : .event .timer s.toCore ∈ s.log) : LoopMove s (rtoGiveUp env s)
  | copyGone (i : ℕ) (s : Stream) : LoopMove s (dropCopy i s)
  | destroySent (i : ℕ) (s : Stream) (hi : (s.io.copies[i]?).map UvCopy.kind = some .destroy) :
    LoopMove s (closeStart env .none (dropCopy i s))
  | relayGone (s : Stream) (hr : s.peer.relayTo = true) : LoopMove s (relayGone env s)
  | relay (seq : SeqNo) (s : Stream) (hr : s.peer.relayTo = true) (hdead : s.st.dead = false)
    (hp : s.ctl.packet = none) : LoopMove s (relaySeq seq s)
  | timewait (type : UInt8) (s : Stream) (hs : s.st.closed = true) :
    LoopMove s (processTimewait env type s)

/-- Moves that take what a datagram carries. -/
inductive RecvMove : Stream → Stream → Prop
  | packet (h : Header) (d data : List UInt8) (same : Bool) (pre : Core) (s : Stream)
    (hev : s.event? = some (.recv d same, pre)) (hparse : parse d = some h)
    (hid : h.remoteId = s.peer.localId)
    (hpay : payload h d = some data) (hdead : s.st.dead = false) (hr : s.peer.relayTo = false)
    (hidle : s.ctl.cursor = none ∧ s.ctl.processing = false ∧ s.ctl.draining = []) :
    RecvMove s (setPacket (rxPacket h d data s) s)
  | take (p : RxPacket) (s : Stream) (hp : s.ctl.packet = some p) (hdead : s.st.dead = false)
    (hread : s.st.endedRemote = false) (hseq : p.h.seq = s.rx.ack)
    (hdata : hasFlag p.h.type UDX_HEADER_DATA = true) :
    RecvMove s (announceRead p.data (takeNext (noteAccept p.h.type p.h.seq p.data s)))
  | hold (p : RxPacket) (s : Stream) (hp : s.ctl.packet = some p) (hdead : s.st.dead = false)
    (hread : s.st.endedRemote = false) (hseq : seqCompare s.rx.ack p.h.seq ≤ 0)
    (htype : hasFlag p.h.type UDX_HEADER_DATA_OR_END = true)
    (hslow : ¬ (p.h.seq = s.rx.ack ∧ hasFlag p.h.type UDX_HEADER_DATA = true)) :
    RecvMove s (holdPacket p.h.type p.h.seq p.data s)
  | endBit (p : RxPacket) (s : Stream) (hp : s.ctl.packet = some p) (hdead : s.st.dead = false)
    (hend : hasFlag p.h.type UDX_HEADER_END = true)
    (htaken : s.st.endedRemote = true ∨ seqCompare s.rx.ack p.h.seq ≤ 0 ∨
      s.rx.ack = p.h.seq + 1) :
    RecvMove s (setEndingRemote p.h.seq s)
  | message (d : List UInt8) (s : Stream) (hdead : s.st.dead = false) :
    RecvMove s (s.note (.callback (.recv d)))
  | drainStart (b : SackBlock) (rest : List SackBlock) (s : Stream) (hdead : s.st.dead = false)
    (hread : s.st.endedRemote = false) (ht : s.rx.sackTree = b :: rest)
    (hb : b.start = s.rx.ack) (hd : s.ctl.draining = []) :
    RecvMove s (setDraining b.packetQueue (setSackTree rest s))
  | drainTake (b : OooBuf) (rest : List OooBuf) (s : Stream) (hdead : s.st.dead = false)
    (hd : s.ctl.draining = b :: rest) : RecvMove s (drainTake b rest s)

/-- Moves that take what a datagram acknowledges. -/
inductive AckMove : Stream → Stream → Prop
  | window (p : RxPacket) (s : Stream) (hp : s.ctl.packet = some p) (hdead : s.st.dead = false)
    (hack : ¬ seqCompare s.tx.seq p.h.ack < 0) (hd : s.ctl.draining = []) :
    AckMove s (windowStage p s)
  | ackInit (p : RxPacket) (s : Stream) (hp : s.ctl.packet = some p) (hdead : s.st.dead = false)
    (hproc : s.ctl.processing = true)
    (hprior : p.priorRemoteAcked = s.tx.remoteAcked)
    (hadv : p.ackAdvanced = decide (seqDiff p.h.ack s.tx.remoteAcked > 0))
    (hdel : p.delivered = s.cc.delivered) (hcur : s.ctl.cursor = none) : AckMove s (ackInit p s)
  | ackAbsent (p : RxPacket) (c : SeqNo) (s : Stream) (hp : s.ctl.packet = some p)
    (hdead : s.st.dead = false) (hc : s.ctl.cursor = some c) (hlt : seqCompare c p.h.ack < 0)
    (hk : s.tx.outgoing c = none) : AckMove s (ackAbsent false (setCursor (some (c + 1)) s))
  | sackAbsent (c : SeqNo) (s : Stream) (hc : s.ctl.cursor = none)
    (hk : s.tx.outgoing c = none) : AckMove s (ackAbsent true s)
  | ackTake (p : RxPacket) (c : SeqNo) (k : ℕ) (s : Stream) (hp : s.ctl.packet = some p)
    (hdead : s.st.dead = false) (hc : s.ctl.cursor = some c) (hlt : seqCompare c p.h.ack < 0)
    (hk : s.tx.outgoing c = some k) (hidle : s.ctl.acking = [] ∧ s.ctl.ackDue = none) :
    AckMove s (ackTake c k false (setCursor (some (c + 1)) s))
  | sackTake (c : SeqNo) (k : ℕ) (s : Stream) (hc : s.ctl.cursor = none)
    (hk : s.tx.outgoing c = some k)
    (hidle : s.st.dead = false ∧ s.ctl.acking = [] ∧ s.ctl.ackDue = none ∨
      (s.tx.pkts k).bufs = []) :
    AckMove s (ackTake c k true s)
  /-- The SACK ranges go on where a callback has destroyed the stream, and
  `ack_packet` then counts one slice. -/
  | sackDead (c : SeqNo) (k : ℕ) (x : Chunk) (rest : List Chunk) (s : Stream)
    (hc : s.ctl.cursor = none) (hk : s.tx.outgoing c = some k) (hdead : s.st.dead = true)
    (hb : (s.tx.pkts k).bufs = x :: rest) : AckMove s (chunkStage x rest (ackTake c k true s))
  | chunk (c : Chunk) (rest : List Chunk) (s : Stream) (hc : s.ctl.acking = c :: rest)
    (hdue : s.ctl.ackDue = none) : AckMove s (chunkStage c rest s)
  | complete (b : ℕ) (sack : Bool) (s : Stream) (hdead : s.st.dead = false)
    (hb : s.ctl.ackDue = some b) : AckMove s (completeStage b sack s)
  | ackDone (k : ℕ) (s : Stream) (hk : s.ctl.ackPkt = some k) (hc : s.ctl.acking = [])
    (hdue : s.ctl.ackDue = none) : AckMove s (ackDone k s)
  | ackDrop (k : ℕ) (s : Stream) (hdead : s.st.dead = true) : AckMove s (derefPacket k s)
  | advance (p : RxPacket) (c : SeqNo) (s : Stream) (hp : s.ctl.packet = some p)
    (hc : s.ctl.cursor = some c) (hend : ¬ seqCompare c p.h.ack < 0) (hdead : s.st.dead = false)
    (hidle : s.ctl.acking = [] ∧ s.ctl.ackDue = none)
    (hout : (advanceRemoteAcked p s).tx.remoteAcked ≠ s.tx.seq) : AckMove s (advanceRemoteAcked p s)
  /-- Everything is acknowledged: no SACK range can be valid, and the timers
  are settled at once. -/
  | advanceAll (p : RxPacket) (c : SeqNo) (s : Stream) (hp : s.ctl.packet = some p)
    (hc : s.ctl.cursor = some c) (hend : ¬ seqCompare c p.h.ack < 0) (hdead : s.st.dead = false)
    (hidle : s.ctl.acking = [] ∧ s.ctl.ackDue = none)
    (hout : (advanceRemoteAcked p s).tx.remoteAcked = s.tx.seq) :
    AckMove s (settleAcks env p (deliveredBy p s) (setSacksLeft [] (advanceRemoteAcked p s)))
  | advanceEnded (p : RxPacket) (s : Stream) (hp : s.ctl.packet = some p)
    (hc : s.ctl.cursor.isSome = true) (hdead : s.st.dead = false) (hended : s.EndAcked)
    (hidle : s.ctl.acking = [] ∧ s.ctl.ackDue = none) :
    AckMove s (timerEnded (advanceRemoteAcked p s))
  | advanceDead (p : RxPacket) (s : Stream) (hp : s.ctl.packet = some p)
    (hc : s.ctl.cursor.isSome = true) (hdead : s.st.dead = true) : AckMove s (advanceRemoteAcked p s)
  | sackNext (rest : List (SeqNo × SeqNo)) (r : SeqNo × SeqNo) (s : Stream)
    (hr : s.ctl.sacksLeft = r :: rest) (hcur : s.ctl.cursor = none) :
    AckMove s (setSacksLeft rest s)
  | settle (p : RxPacket) (s : Stream) (hp : s.ctl.packet = some p) (hdead : s.st.dead = false)
    (hproc : s.ctl.processing = true) (hcur : s.ctl.cursor = none)
    (hidle : s.ctl.acking = [] ∧ s.ctl.ackDue = none)
    (hout : s.tx.span < 2 ^ 32 → s.tx.seq ≠ s.tx.remoteAcked) :
    AckMove s (settleAcks env p (deliveredBy p s) s)
  | finishPacket (p : RxPacket) (delivered : ℕ) (s : Stream) (hp : s.ctl.packet = some p)
    (hdead : s.st.dead = false) (hcur : s.ctl.cursor = none)
    (hdel : delivered = deliveredBy p s) : AckMove s (finishPacket env p delivered s)

/-- Moves of an event. -/
inductive Move : Stream → Stream → Prop
  | loop {s s'} : LoopMove env s s' → Move s s'
  | recv {s s'} : RecvMove s s' → Move s s'
  | ack {s s'} : AckMove env s s' → Move s s'

/-- Paths of the moves `M` and of API calls. -/
inductive Path (M : Stream → Stream → Prop) : Stream → Stream → Prop
  | refl (s : Stream) : Path M s s
  | move {s t u} : Path M s t → M t u → Path M s u
  | call {s t u} : Path M s t → CallPath env t u → Path M s u

end

/-! ### Paths -/

variable {env : Env}

/-- Paths of plain moves. -/
abbrev PlainPath (env : Env) := Relation.ReflTransGen (PlainMove env)

namespace CallPath

theorem single {s t : Stream} (h : CallMove env s t) : CallPath env s t := .tail (.refl s) h

theorem trans {s t u : Stream} (h : CallPath env s t) (h' : CallPath env t u) :
    CallPath env s u := by
  induction h' with
  | refl => exact h
  | tail _ hm ih => exact .tail (ih h) hm
  | connecting _ h2 ih _ => exact .connecting (ih h) h2

theorem ofPlain {s t : Stream} (h : PlainPath env s t) : CallPath env s t := by
  induction h with
  | refl => exact .refl s
  | tail _ hm ih => exact .tail ih (.plain hm)

/-- What the moves of a call preserve, and the marks of
`udx_stream_connect`, holds along its paths. -/
theorem preserves {I : Stream → Prop} (hmove : ∀ {s t}, CallMove env s t → I s → I t)
    (hopen : ∀ {s}, I s → I (setConnecting true s))
    (hclose : ∀ {s} c, I s → I (setConnecting c (setAckNeeded false s))) {s t : Stream}
    (h : CallPath env s t) : I s → I t := by
  induction h with
  | refl => exact id
  | tail _ hm ih => exact fun hs => hmove hm (ih hs)
  | connecting _ _ ih1 ih2 => exact fun hs => hclose _ (ih2 (hopen (ih1 hs)))

end CallPath

namespace Path

variable {M N : Stream → Stream → Prop}

theorem single {s t : Stream} (h : M s t) : Path env M s t := .move (.refl s) h

theorem ofCall {s t : Stream} (h : CallPath env s t) : Path env M s t := .call (.refl s) h

theorem trans {s t u : Stream} (h : Path env M s t) (h' : Path env M t u) : Path env M s u := by
  induction h' with
  | refl => exact h
  | move _ hm ih => exact .move ih hm
  | call _ hc ih => exact .call ih hc

theorem mono (hMN : ∀ {s t}, M s t → N s t) {s t : Stream} (h : Path env M s t) :
    Path env N s t := by
  induction h with
  | refl => exact .refl _
  | move _ hm ih => exact .move ih (hMN hm)
  | call _ hc ih => exact .call ih hc

theorem preserves {I : Stream → Prop} (hmove : ∀ {s t}, M s t → I s → I t)
    (hcall : ∀ {s t}, CallPath env s t → I s → I t) {s t : Stream} (h : Path env M s t) :
    I s → I t := by
  induction h with
  | refl => exact id
  | move _ hm ih => exact fun hs => hmove hm (ih hs)
  | call _ hc ih => exact fun hs => hcall hc (ih hs)

end Path

end Udx
