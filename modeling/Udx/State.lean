/-
# The state of a stream

`Core` is `udx_stream_t` with what it points to: the packets and write
buffers it owns, the libuv handles it arms, and the datagrams of its that
libuv still holds. `Stream` adds a log of what happened: the callbacks
made, the datagrams that left, the asserts that failed, and every API call
and event with the state it found.

Packets are numbered in the order they are allocated, write buffers and
writes in the order they are accepted; a pointer is such a number. libuv is
an environment (`Env`): what each `uv_udp_try_send` and `uv_udp_send`
answers, what the user's buffer size and firewall callbacks answer, and what
the double arithmetic of BBR comes to.

Fields marked ghost are read by no code path: they name positions of the
run that conditions and invariants speak about.

Key definitions: `Core`, `Stream`, `Env`, `Entry`, `Stream.invoke`.
-/
import Udx.Wire
import Mathlib.Logic.Function.Basic

namespace Udx

open Serial

/-! ### Constants -/

def UDX_MTU_BASE : ℕ := 1200
def UDX_MTU_MAX_PROBES : ℕ := 3
def UDX_MTU_MAX : ℕ := 1500
def UDX_MTU_STEP : ℕ := 32
def UDX_INIT_PACING_RATE : ℕ := 25000
def UDX_MAX_RTO_TIMEOUTS : ℕ := 6
def UDX_RTO_MAX_MS : ℕ := 30000
def UDX_RTT_MAX_MS : ℕ := 30000
def UDX_RTT_MIN_WINDOW_MS : ℕ := 300000
def UDX_DEFAULT_RWND_MAX : ℕ := 4 * 1024 * 1024
def UDX_STREAM_TIMEWAIT_TIMEOUT_MS : ℕ := 5000
def UDX_HIGH_WATERMARK : ℕ := 262144
def UDX_TLP_MAX_ACK_DELAY : ℕ := 2

/-! ### Flags and enumerations -/

/-- `stream->status`. -/
structure Status where
  connected : Bool := false
  receiving : Bool := false
  reading : Bool := false
  ending : Bool := false
  endingRemote : Bool := false
  ended : Bool := false
  endedRemote : Bool := false
  destroying : Bool := false
  closed : Bool := false
  timewaitWanted : Bool := false
  deriving DecidableEq, Repr

/-- `UDX_STREAM_DEAD`. -/
def Status.dead (st : Status) : Bool := st.destroying || st.closed

/-- `(status & UDX_STREAM_SHOULD_READ) == UDX_STREAM_READ`. -/
def Status.shouldRead (st : Status) : Bool := !(st.endedRemote || st.dead)

/-- `(status & UDX_STREAM_SHOULD_END) == UDX_STREAM_END`. -/
def Status.shouldEnd (st : Status) : Bool := st.ending && !(st.ended || st.dead)

/-- `(status & UDX_STREAM_SHOULD_END_REMOTE) == UDX_STREAM_END_REMOTE`. -/
def Status.shouldEndRemote (st : Status) : Bool := st.endingRemote && !(st.endedRemote || st.dead)

/-- `(status & UDX_STREAM_ALL_ENDED) == UDX_STREAM_ALL_ENDED`. -/
def Status.allEnded (st : Status) : Bool := st.ended && st.endedRemote

/-- `udx_stream_timer_type_t`. -/
inductive Timer
  | none | rto | rackReo | tlp | zwp | keepalive
  deriving DecidableEq, Repr

/-- `ca_state`; the source orders them `OPEN < RECOVERY < LOSS`. -/
inductive CaState
  | opened | recovery | loss
  deriving DecidableEq, Repr

inductive BbrState
  | startup | drain | probeBw | probeRtt
  deriving DecidableEq, Repr

inductive MtuState
  | base | search | error | searchComplete
  deriving DecidableEq, Repr

inductive Family
  | unspec | inet | inet6
  deriving DecidableEq, Repr

/-- A `sockaddr`. -/
structure SockAddr where
  family : Family := .unspec
  port : ℕ := 0
  ip : List UInt8 := []
  deriving DecidableEq, Repr

/-- A socket, as a stream sees it. -/
structure Socket where
  id : ℕ
  family : Family
  deriving DecidableEq, Repr

/-- Where a datagram is handed: the socket and the address. -/
structure Dest where
  socket : Option Socket
  addr : SockAddr
  deriving DecidableEq, Repr

/-- What API calls return. -/
inductive Ret
  | ok (n : ℕ)
  | einval | eisconn | enotconn | epipe | ealready
  deriving DecidableEq, Repr

/-- The asserts of the code. -/
inductive Site
  | bytesInflight | wbufAcked | writeAcked | writesQueued
  | endRetransmitQueue | endWriteQueue | fullAckQueues
  | cwndPositive | bbrCwnd | bbrBw | bbrInitBw | bbrAckEpoch
  | pacingRate | packetRefCount | packetHeld | headerFlag | packetBound | packetSize | probeFamily
  | armInflight | armOutstanding | armRto | armClosed | rearmPending
  | sendDead | tlpConnected | rackTransmits | rackSize | rackClosed
  | zwpConnected | zwpRwnd | zwpClosed | zwpPending | zwpQueued
  | rtoConnected | rtoOutstanding | rtoClosed | keepaliveIdle
  | closeTwice
  /-- Not an assert: a lookup in the destroyed `outgoing`. -/
  | cirbufNull
  deriving DecidableEq, Repr

/-! ### Receiving -/

/-- `udx_buf_t`: a packet held out of order. -/
structure OooBuf where
  type : UInt8
  data : List UInt8
  deriving DecidableEq, Repr

/-- `udx_sack_block_t`: the packets `[start, stop)`. -/
structure SackBlock where
  start : SeqNo
  stop : SeqNo
  packetQueue : List OooBuf
  deriving DecidableEq, Repr

structure Rx where
  ack : SeqNo := 0
  remoteEnded : SeqNo := 0
  /-- The blocks of the tree, in its order. -/
  sackTree : List SackBlock := []
  ackNeeded : Bool := false
  recvRwndMax : ℕ := UDX_DEFAULT_RWND_MAX
  /-- Ghost: how often `ack` was advanced. -/
  taken : ℕ := 0

/-! ### Sending -/

/-- `uv_buf_t` into a write buffer, with the buffer it points into. -/
structure Chunk where
  wbuf : ℕ
  base : ℕ
  len : ℕ
  deriving DecidableEq, Repr

/-- `udx_packet_t`. -/
structure Packet where
  seq : SeqNo := 0
  lost : Bool := false
  retransmitted : Bool := false
  transmits : ℕ := 0
  isMtuProbe : Bool := false
  refCount : ℕ := 1
  size : ℕ := UDX_HEADER_SIZE
  remoteAddr : SockAddr := {}
  remoteAddrLen : ℕ := 0
  remoteId : SeqNo := 0
  timeSent : ℕ := 0
  streamOffset : ℕ := 0
  firstSentTs : ℕ := 0
  deliveredTs : ℕ := 0
  delivered : SeqNo := 0
  isAppLimited : Bool := false
  header : Header := {}
  nwbufsCapacity : ℕ := 5
  /-- `bufs[1..]` with `wbufs`; `nwbufs` is its length. -/
  bufs : List Chunk := []

/-- `udx_stream_write_buf_t`. -/
structure WriteBuf where
  buf : List UInt8 := []
  bytesInflight : ℕ := 0
  bytesAcked : ℕ := 0
  write : ℕ := 0
  isWriteEnd : Bool := false

/-- `udx_stream_write_t`. -/
structure Write where
  size : ℕ := 0
  bytesAcked : ℕ := 0
  isWriteEnd : Bool := false
  onAck : Bool := false

/-- A `uv_buf_t` given to libuv: a packet's header, probe padding or data. -/
inductive UvBuf
  | header (pkt : ℕ)
  | padding (len : ℕ)
  | data (c : Chunk)
  deriving DecidableEq, Repr

/-- A packet libuv holds: `uv_udp_send` copied the `uv_buf_t` array, not the
bytes it points to. `sent` is set once the datagram has left. -/
structure UvSend where
  pkt : ℕ
  bufs : List UvBuf
  dest : Dest
  sent : Bool := false
  deriving DecidableEq, Repr

structure Tx where
  seq : SeqNo := 0
  remoteAcked : SeqNo := 0
  sacks : ℕ := 0
  outgoing : SeqNo → Option ℕ := fun _ => none
  /-- `outgoing.values != NULL`. -/
  outgoingLive : Bool := true
  inflightQueue : List ℕ := []
  retransmitQueue : List ℕ := []
  inflight : ℤ := 0
  pkts : ℕ → Packet := fun _ => {}
  /-- `stream->pkt`, the packet in construction. -/
  pkt : ℕ := 0
  pktCapacity : ℕ := 0
  pktHeaderFlag : UInt8 := 0
  writeQueue : List ℕ := []
  wbufs : ℕ → WriteBuf := fun _ => {}
  nwbufs : ℕ := 0
  writes : ℕ → Write := fun _ => {}
  nwrites : ℕ := 0
  bytesQueued : ℕ := 0
  bytesPacketized : ℕ := 0
  bytesAcked : ℕ := 0
  writesQueuedBytes : ℕ := 0
  /-- The packets of this stream that libuv holds. -/
  uvq : List UvSend := []
  /-- Ghost: the most sequence numbers from `remoteAcked` on that were in use
  when a packet was numbered. -/
  span : ℕ := 0
  /-- Ghost: a packet got the number of one that was still outstanding. -/
  reused : Bool := false

/-- The send window, and the high watermark tested against it. -/
structure Win where
  sendRwnd : ℕ := UDX_DEFAULT_RWND_MAX
  sendWl1 : SeqNo := 0
  sendWl2 : SeqNo := 0
  hitHighWatermark : Bool := false

/-! ### Timers -/

structure Timers where
  pendingTimer : Timer := .none
  /-- The libuv timer: the callback it runs and when. -/
  timer : Option (Timer × ℕ) := none
  nextRtoTs : ℕ := 0
  refillPacingTimer : Option ℕ := none
  pendingPacketPrepare : Bool := false
  keepaliveTimeoutMs : ℕ := 0
  rtoCount : ℕ := 0
  zwpCount : ℕ := 0
  deriving DecidableEq, Repr

/-! ### Congestion control -/

structure WinFilterEntry where
  t : ℕ
  v : ℕ
  deriving DecidableEq, Repr

/-- `win_filter_t`. -/
structure WinFilter where
  e0 : WinFilterEntry
  e1 : WinFilterEntry
  e2 : WinFilterEntry
  deriving DecidableEq, Repr

/-- `stream->bbr`, without its doubles: they enter through `Env.bbr`.
`pacingGain` keeps how the gain compares with 1. -/
structure Bbr where
  minRttMs : ℕ := 2 ^ 32 - 1
  minRttStamp : ℕ := 0
  probeRttDoneTime : ℕ := 0
  rttCount : ℕ := 0
  nextRttDelivered : SeqNo := 0
  cycleTimestamp : ℕ := 0
  state : BbrState := .startup
  prevCaState : CaState := .opened
  usePacketConservation : Bool := false
  roundStart : Bool := false
  idleRestart : Bool := false
  probeRttRoundDone : Bool := false
  pacingGain : Ordering := .gt
  fullBwReached : Bool := false
  fullBwCount : ℕ := 0
  cycleIndex : ℕ := 0
  hasSeenRtt : Bool := false
  priorCwnd : ℕ := 0
  ackEpochStart : ℕ := 0
  extraAcked : ℕ × ℕ := (0, 0)
  ackEpochAcked : ℕ := 0
  extraAckedWinRtts : ℕ := 0
  extraAckedWinIndex : Bool := false
  deriving DecidableEq, Repr

structure Cc where
  caState : CaState := .opened
  highSeq : SeqNo := 0
  cwnd : ℕ := 10
  srtt : ℕ := 0
  rttvar : ℕ := 0
  rto : ℕ := 1000
  rttMin : WinFilter := ⟨⟨0, 2 ^ 32 - 1⟩, ⟨0, 2 ^ 32 - 1⟩, ⟨0, 2 ^ 32 - 1⟩⟩
  rackRtt : ℕ := 0
  rackTimeSent : ℕ := 0
  rackNextSeq : SeqNo := 0
  rackFack : SeqNo := 0
  reorderingSeen : Bool := false
  delivered : SeqNo := 0
  lost : SeqNo := 0
  appLimited : SeqNo := 0
  firstSentTs : ℕ := 0
  deliveredTs : ℕ := 0
  rateDelivered : ℕ := 0
  rateIntervalMs : ℕ := 0
  rateSampleIsAppLimited : Bool := true
  tlpIsRetrans : Bool := false
  tlpInFlight : Bool := false
  tlpPermitted : Bool := false
  tlpEndSeq : SeqNo := 0
  pacingBytesPerMs : ℕ := 0
  tbAvailable : ℕ := UDX_INIT_PACING_RATE
  tbLastRefillMs : ℕ := 0
  bbr : Bbr := {}
  deriving DecidableEq, Repr

/-- `udx_rate_sample_t`. -/
structure RateSample where
  priorTimestamp : ℕ := 0
  priorDelivered : SeqNo := 0
  delivered : ℤ := 0
  intervalMs : ℤ := 0
  rttMs : ℤ := -1
  losses : ℤ := 0
  ackedSacked : ℕ := 0
  seq : SeqNo := 0
  isAppLimited : Bool := false
  isAckDelayed : Bool := false
  deriving DecidableEq, Repr

structure Mtu where
  state : MtuState := .base
  probeWanted : Bool := false
  probeCount : ℕ := 0
  probeSize : ℕ := UDX_MTU_BASE
  max : ℕ := UDX_MTU_MAX
  mtu : ℕ := UDX_MTU_BASE
  deriving DecidableEq, Repr

/-! ### The stream -/

/-- Whom the stream talks to. -/
structure Peer where
  localId : SeqNo := 0
  remoteId : SeqNo := 0
  socket : Option Socket := none
  remoteAddr : SockAddr := {}
  remoteAddrLen : ℕ := 0
  remoteChanging : Bool := false
  seqOnRemoteChanged : SeqNo := 0
  /-- `relay_to != NULL`. -/
  relayTo : Bool := false
  relayed : Bool := false
  deriving DecidableEq, Repr

/-- Which callbacks are set. -/
structure Handlers where
  onFirewall : Bool := false
  onRead : Bool := false
  onRecv : Bool := false
  onDrain : Bool := false
  onRemoteChanged : Bool := false
  onClose : Bool := false
  deriving DecidableEq, Repr

/-- `udx_timewait_t`, what a cleanly closed stream leaves behind. -/
structure Timewait where
  header : Header
  dest : Dest
  due : ℕ
  deriving DecidableEq, Repr

/-- What a datagram is. -/
inductive Kind
  | packet (pkt : ℕ)
  | ack | probe | destroy | timewait
  | message (onSend : Bool)
  deriving DecidableEq, Repr

/-- A datagram libuv holds a copy of. -/
structure UvCopy where
  kind : Kind
  dest : Dest
  bytes : List UInt8
  sent : Bool := false
  deriving DecidableEq, Repr

/-- The loop the stream runs on. -/
structure Io where
  now : ℕ := 0
  /-- How many questions the environment was asked. -/
  calls : ℕ := 0
  copies : List UvCopy := []
  teardown : Bool := false
  timewait : Option Timewait := none

/-- The header, payload and SACK ranges of a datagram, with what
`process_packet` reads of the stream before it changes it. -/
structure RxPacket where
  h : Header
  data : List UInt8
  sacks : List (SeqNo × SeqNo)
  delivered : SeqNo
  lost : SeqNo
  priorRemoteAcked : SeqNo
  ackAdvanced : Bool
  dataInflight : Bool
  deriving DecidableEq, Repr

/-- The locals of the calls in progress that outlive a user callback. All but
`rs` are ghost: copies of what the code keeps on its stack, or marks of where
in the code the run is. -/
structure Control where
  /-- `rs` of `process_packet`. -/
  rs : RateSample := {}
  /-- The datagram being processed. -/
  packet : Option RxPacket := none
  /-- The next sequence number of the cumulative ack loop, while in it. -/
  cursor : Option SeqNo := none
  /-- The SACK ranges of the datagram that are not yet looked at. -/
  sacksLeft : List (SeqNo × SeqNo) := []
  /-- The slices of the packet being acknowledged that are not yet counted. -/
  acking : List Chunk := []
  /-- The write buffer whose write may be complete now. -/
  ackDue : Option ℕ := none
  /-- The packet that was acknowledged last. -/
  ackPkt : Option ℕ := none
  /-- The packets of the block being drained that are not yet taken. -/
  draining : List OooBuf := []
  /-- `process_packet` has come to the send window. -/
  processing : Bool := false
  /-- Inside `udx_stream_connect`. -/
  connecting : Bool := false
  /-- The slices of the packet being cancelled that are not yet counted. -/
  cancelling : List Chunk := []
  /-- The packet in construction was cancelled. -/
  pktCancelled : Bool := false
  deriving DecidableEq, Repr

structure Core where
  st : Status := {}
  rx : Rx := {}
  tx : Tx := {}
  win : Win := {}
  tm : Timers := {}
  cc : Cc := {}
  mtu : Mtu := {}
  peer : Peer := {}
  handlers : Handlers := {}
  io : Io := {}
  ctl : Control := {}

/-! ### Calls, events and the log -/

/-- Status of a completed write. -/
inductive AckStatus
  | ok | canceled
  deriving DecidableEq, Repr

/-- Why a stream was closed. -/
inductive CloseErr
  | none | timedOut | connReset
  deriving DecidableEq, Repr

/-- The user's callbacks. -/
inductive Callback
  | firewall
  | read (data : List UInt8)
  | eof
  | recv (data : List UInt8)
  | ack (write : ℕ) (status : AckStatus) (sack : Bool)
  | drain
  | remoteChanged
  | close (err : CloseErr)
  | sent
  deriving DecidableEq, Repr

/-- The API calls of a stream. -/
inductive Call
  | connect (socket : Socket) (remoteId : SeqNo) (addr : SockAddr)
  | changeRemote (socket : Socket) (remoteId : SeqNo) (addr : SockAddr) (cb : Bool)
  | relayTo (destinationClosed : Bool)
  | setKeepalive (ms : ℕ)
  | setRwndMax (size : ℕ)
  | firewall (set : Bool)
  | recvStart | recvStop | readStart | readStop
  | send (data : List UInt8) (cb : Bool)
  | writeResume (set : Bool)
  | write (bufs : List (List UInt8)) (cb : Bool)
  | writeEnd (bufs : List (List UInt8)) (cb : Bool)
  | destroy
  | teardown
  deriving DecidableEq, Repr

/-- What the loop does to a stream: a call from outside any callback, a
datagram (`same`: it came in on the stream's own socket), an expiry, a
prepare callback, a datagram leaving libuv's queue, a send completion, time
passing, the destination of a relay closing. -/
inductive Event
  | call (c : Call)
  | recv (d : List UInt8) (same : Bool)
  | timer | pacing | prepare
  | uvSent (i : ℕ) | uvDone (i : ℕ)
  | copySent (i : ℕ) | copyDone (i : ℕ)
  | tick (ms : ℕ)
  | timewaitTimeout
  | relayClosed
  deriving DecidableEq, Repr

/-- Places of the code whose states the log keeps: the destroy packet, a relayed
datagram, the keepalive timer of `udx_stream_connect`, the packet `k` that
`ack_packet` has found, that `bind_packet_remote` gets, and the ack that may
end a recovery episode. -/
inductive Place
  | destroySend
  | ackTake (k : ℕ)
  | bind (k : ℕ)
  | episode (ack : SeqNo)
  | relay (seq : SeqNo)
  | connectKeepalive
  deriving DecidableEq, Repr

/-- An entry of the log. -/
inductive Entry
  | callback (c : Callback)
  /-- Ghost: a callback returned, leaving this state. -/
  | returned (c : Callback) (post : Core)
  /-- Ghost: an API call or event found this state. -/
  | call (c : Call) (pre : Core)
  | event (e : Event) (pre : Core)
  /-- Ghost: the run came to a place of the code in this state. -/
  | reached (p : Place) (pre : Core)
  | result (r : Ret)
  /-- Given to `uv_udp_try_send`. -/
  | handed (k : Kind) (dest : Dest)
  /-- Left the socket. -/
  | wire (k : Kind) (dest : Dest) (d : List UInt8)
  | failed (a : Site)
  /-- Ghost: the token bucket was refilled for `ms` milliseconds. -/
  | refill (ms rate : ℕ)
  /-- Ghost: the `i`-th packet of the peer was accepted. -/
  | accept (i : ℕ) (type : UInt8) (data : List UInt8)
  /-- Ghost: a payload was consumed with no `on_read` set. -/
  | dropped
  /-- Ghost: the stream became DESTROYING or CLOSED. -/
  | dead

structure Stream extends Core where
  /-- Newest first. -/
  log : List Entry := []

/-! ### The environment -/

/-- What `uv_udp_try_send` answers. -/
inductive TrySend
  | sent | again | error
  deriving DecidableEq, Repr

/-- What BBR computes with doubles, as the integer or truth value it is used
for. -/
inductive BbrValue
  /-- `bbr_bw_to_pacing_rate` before its `max` with 1. -/
  | rate | initRate
  /-- `bw * min_rtt * gain`, in `bbr_set_cwnd`, `bbr_is_next_cycle_phase`
  (for a gain above and below 1) and `bbr_check_drain`. -/
  | bdp | probeInflight | phaseInflight | drainInflight
  /-- `bbr_bw * bbr_extra_acked_max_ms`. -/
  | maxAggrCwnd
  /-- `bbr_bw * epoch_ms`. -/
  | expectedAcked
  /-- Nonzero if `bbr_max_bw >= full_bw * bbr_full_bw_thresh`. -/
  | bwGrew
  deriving DecidableEq, Repr

/-- The answers of everything outside `src/`, by the number of the question. -/
structure Env where
  trySend : ℕ → TrySend
  /-- Whether `uv_udp_send` takes the datagram. -/
  uvSend : ℕ → Bool
  /-- `get_read_buffer_size`; 0 where it is not set. -/
  readBufferSize : ℕ → ℕ
  /-- Whether `on_firewall` refuses. -/
  firewall : ℕ → Bool
  /-- `udx__get_link_mtu`; none for -1. -/
  linkMtu : ℕ → Option ℕ
  bbr : BbrValue → ℕ → ℕ

/-- How the user's callbacks act on the stream. -/
abbrev Hook := Callback → Stream → Stream

namespace Stream

/-! Changes of one part of a stream. -/

def withSt (f : Status → Status) (s : Stream) : Stream := { s with st := f s.st }
def withRx (f : Rx → Rx) (s : Stream) : Stream := { s with rx := f s.rx }
def withTx (f : Tx → Tx) (s : Stream) : Stream := { s with tx := f s.tx }
def withWin (f : Win → Win) (s : Stream) : Stream := { s with win := f s.win }
def withTm (f : Timers → Timers) (s : Stream) : Stream := { s with tm := f s.tm }
def withCc (f : Cc → Cc) (s : Stream) : Stream := { s with cc := f s.cc }
def withMtu (f : Mtu → Mtu) (s : Stream) : Stream := { s with mtu := f s.mtu }
def withPeer (f : Peer → Peer) (s : Stream) : Stream := { s with peer := f s.peer }
def withHandlers (f : Handlers → Handlers) (s : Stream) : Stream :=
  { s with handlers := f s.handlers }
def withIo (f : Io → Io) (s : Stream) : Stream := { s with io := f s.io }
def withCtl (f : Control → Control) (s : Stream) : Stream := { s with ctl := f s.ctl }
def withBbr (f : Bbr → Bbr) (s : Stream) : Stream :=
  s.withCc fun c => { c with bbr := f c.bbr }

/-- Append an entry to the log. -/
def note (e : Entry) (s : Stream) : Stream := { s with log := e :: s.log }

/-- `assert`: a failure is recorded and the run goes on, as with `NDEBUG`. -/
def check (a : Site) (p : Prop) [Decidable p] (s : Stream) : Stream :=
  if p then s else s.note (.failed a)

section

variable (a : Site) (p : Prop) [Decidable p] (s : Stream)

/-- An assert changes the log at most. -/
theorem check_core : (s.check a p).toCore = s.toCore := by
  unfold check
  split <;> rfl

@[simp] theorem check_st : (s.check a p).st = s.st := congrArg Core.st (check_core a p s)
@[simp] theorem check_rx : (s.check a p).rx = s.rx := congrArg Core.rx (check_core a p s)
@[simp] theorem check_tx : (s.check a p).tx = s.tx := congrArg Core.tx (check_core a p s)
@[simp] theorem check_win : (s.check a p).win = s.win := congrArg Core.win (check_core a p s)
@[simp] theorem check_tm : (s.check a p).tm = s.tm := congrArg Core.tm (check_core a p s)
@[simp] theorem check_cc : (s.check a p).cc = s.cc := congrArg Core.cc (check_core a p s)
@[simp] theorem check_mtu : (s.check a p).mtu = s.mtu := congrArg Core.mtu (check_core a p s)
@[simp] theorem check_peer : (s.check a p).peer = s.peer := congrArg Core.peer (check_core a p s)
@[simp] theorem check_handlers : (s.check a p).handlers = s.handlers :=
  congrArg Core.handlers (check_core a p s)
@[simp] theorem check_io : (s.check a p).io = s.io := congrArg Core.io (check_core a p s)
@[simp] theorem check_ctl : (s.check a p).ctl = s.ctl := congrArg Core.ctl (check_core a p s)

end

/-- Call a user callback. -/
def invoke (cb : Hook) (c : Callback) (s : Stream) : Stream :=
  let s := cb c (s.note (.callback c))
  s.note (.returned c s.toCore)

/-- Call a user callback if it is set. -/
def invokeIf (cb : Hook) (on : Bool) (c : Callback) (s : Stream) : Stream :=
  if on then s.invoke cb c else s

/-- The log where a callback that is set is about to run. -/
def announce (on : Bool) (c : Callback) (s : Stream) : Stream :=
  if on then s.note (.callback c) else s

/-- The event in progress, with the state it found. -/
def event? (s : Stream) : Option (Event × Core) :=
  s.log.findSome? fun
    | .event e pre => some (e, pre)
    | _ => none

/-- The environment has answered a question. -/
def asked (s : Stream) : Stream := s.withIo fun io => { io with calls := io.calls + 1 }

end Stream

namespace Tx

/-- Write to a packet. -/
def setPkt (t : Tx) (k : ℕ) (f : Packet → Packet) : Tx :=
  { t with pkts := Function.update t.pkts k (f (t.pkts k)) }

/-- Write to a write buffer. -/
def setWbuf (t : Tx) (b : ℕ) (f : WriteBuf → WriteBuf) : Tx :=
  { t with wbufs := Function.update t.wbufs b (f (t.wbufs b)) }

/-- Write to a write. -/
def setWrite (t : Tx) (w : ℕ) (f : Write → Write) : Tx :=
  { t with writes := Function.update t.writes w (f (t.writes w)) }

/-- The bytes a `uv_buf_t` points to now. -/
def bytesOf (t : Tx) : UvBuf → List UInt8
  | .header k => (t.pkts k).header.encode
  | .padding n => List.replicate n 0
  | .data c => ((t.wbufs c.wbuf).buf.drop c.base).take c.len

/-- The datagram a `uv_buf_t` array makes. -/
def gather (t : Tx) (bufs : List UvBuf) : List UInt8 := bufs.flatMap t.bytesOf

end Tx

end Udx
