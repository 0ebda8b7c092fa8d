/-
# The API and the event loop

The calls of `udx.h` on a stream, the events libuv reports to it, and the
runs they make. Callbacks may call the API again: `Layered` is the hooks whose
callbacks make any calls they like, to any finite depth.

Key definitions: `call`, `step`, `init`, `Layered`, `Reach`.
-/
import Udx.Receive
import Mathlib.Logic.Relation

namespace Udx

open Serial

section

variable (env : Env) (cb : Hook)

/-! ### Addresses -/

def SOCKADDR_IN_SIZE : ℕ := 16
def SOCKADDR_IN6_SIZE : ℕ := 28

/-- `addr_to_v6`. -/
def addrToV6 (a : SockAddr) : SockAddr :=
  { a with family := .inet6, ip := List.replicate 10 0 ++ [0xff, 0xff] ++ a.ip.take 4 }

/-- `remote_addr_len` for an address the code accepts. -/
def sockaddrLen (a : SockAddr) : ℕ :=
  if a.family = .inet then SOCKADDR_IN_SIZE else SOCKADDR_IN6_SIZE

/-- The address part of `udx_stream_connect` and `udx_stream_change_remote`;
`socket` is the one whose family decides. False where they return
`UV_EINVAL`. -/
def setRemoteAddr (socket : Option Socket) (addr : SockAddr) (s : Stream) : Stream × Bool :=
  if addr.family = .unspec then (s, false)
  else
    let s := s.withPeer fun peer => { peer with remoteAddrLen := sockaddrLen addr }
    if addr.port = 0 then (s, false)
    else if socket.any (·.family == .inet6) && addr.family == .inet then
      (s.withPeer fun peer =>
        { peer with remoteAddr := addrToV6 addr, remoteAddrLen := SOCKADDR_IN6_SIZE }, true)
    else (s.withPeer fun peer => { peer with remoteAddr := addr }, true)

def Mtu.reset (m : Mtu) : Mtu :=
  { m with
    mtu := UDX_MTU_BASE
    state := .base
    probeCount := 0
    probeSize := UDX_MTU_BASE
    max := UDX_MTU_MAX }

def resetMtuStateMachine (s : Stream) : Stream := s.withMtu Mtu.reset

/-! ### Connecting -/

/-- The MTU search starts below what the link carries. -/
def Mtu.setLink (linkMtu : Option ℕ) (m : Mtu) : Mtu :=
  match linkMtu with
  | none => { m with max := UDX_MTU_MAX }
  | some mtu =>
    if mtu > UDX_MTU_MAX then { m with max := UDX_MTU_MAX }
    else if mtu ≤ UDX_MTU_BASE then { m with state := .searchComplete, max := mtu }
    else { m with max := mtu }

/-- The MTU part of `udx_stream_connect`. -/
def connectMtu (s : Stream) : Stream := s.withMtu (Mtu.setLink (env.linkMtu s.io.calls))

def setConnecting (connecting : Bool) (s : Stream) : Stream :=
  s.withCtl fun ctl => { ctl with connecting := connecting }

/-- The deferred ack of `udx_stream_connect`. -/
def connectAck (s : Stream) : Stream :=
  if s.rx.ackNeeded then
    let connecting := s.ctl.connecting
    setConnecting connecting (setAckNeeded false (sendAck env cb (setConnecting true s)))
  else s

def connectKeepalive (s : Stream) : Stream :=
  let s := s.note (.reached .connectKeepalive s.toCore)
  if s.tm.keepaliveTimeoutMs ≠ 0 then streamTimerStart .keepalive s.tm.keepaliveTimeoutMs s else s

/-- `udx_stream_connect` up to its deferred ack; false where it returns
`UV_EINVAL`. -/
def connectBind (socket : Socket) (remoteId : SeqNo) (addr : SockAddr) (s : Stream) : Stream × Bool :=
  let s := (s.withSt fun st => { st with connected := true }).withPeer fun peer =>
    { peer with remoteId := remoteId, socket := some socket }
  let (s, ok) := setRemoteAddr (some socket) addr s
  if ok then (connectMtu env s, true) else (s, false)

def udxStreamConnect (socket : Socket) (remoteId : SeqNo) (addr : SockAddr) (s : Stream) :
    Stream × Ret :=
  if s.st.dead || s.io.teardown then (s, .einval)
  else if s.st.connected then (s, .eisconn)
  else
    let (s, ok) := connectBind env socket remoteId addr s
    if !ok then (s, .einval)
    else
      let s := connectAck env cb s
      if s.st.dead then (s, .ok 0) else (connectKeepalive s, .ok 0)

/-- A change of remote waits until what was sent before it is acknowledged. -/
def deferRemoteChange (seq : SeqNo) (onRemoteChanged : Bool) (s : Stream) : Stream :=
  (s.withPeer fun peer => { peer with remoteChanging := true, seqOnRemoteChanged := seq }).withHandlers
    fun hs => { hs with onRemoteChanged := onRemoteChanged }

/-- The packet in construction, if it has no data yet, takes what the new
path carries. -/
def resetCapacity (s : Stream) : Stream :=
  if hasFlag s.tx.pktHeaderFlag UDX_HEADER_DATA then s
  else s.withTx fun tx => { tx with pktCapacity := udxMaxPayload s }

/-- The first sequence number that goes to the new remote. -/
def seqOfChange (t : Tx) : SeqNo :=
  t.seq + (if hasFlag t.pktHeaderFlag UDX_HEADER_DATA then 1 else 0)

/-- `udx_stream_change_remote` once the address is set. -/
def changeRemote (socket : Socket) (remoteId : SeqNo) (onRemoteChanged : Bool) (s : Stream) :
    Stream × Ret :=
  let s := s.withPeer fun peer => { peer with remoteId := remoteId, socket := some socket }
  let seq := seqOfChange s.tx
  if seq ≠ s.tx.remoteAcked then
    (resetCapacity (resetMtuStateMachine (deferRemoteChange seq onRemoteChanged s)), .ok 0)
  else (resetCapacity (resetMtuStateMachine s), .ok 1)

/-- What is set once the address is. -/
theorem changeRemote_eq (socket : Socket) (remoteId : SeqNo) (onRemoteChanged : Bool) (s : Stream) :
    ∃ peer changed capacity, (changeRemote socket remoteId onRemoteChanged s).1 =
      (((s.withPeer fun _ => peer).withHandlers fun hs => { hs with onRemoteChanged := changed }).withMtu
        Mtu.reset).withTx fun tx => { tx with pktCapacity := capacity } := by
  have hcapacity : ∀ x : Stream, ∃ capacity, resetCapacity x =
      x.withTx fun tx => { tx with pktCapacity := capacity } := by
    intro x
    unfold resetCapacity
    split
    · exact ⟨x.tx.pktCapacity, rfl⟩
    · exact ⟨udxMaxPayload x, rfl⟩
  let x : Stream := s.withPeer fun peer => { peer with remoteId := remoteId, socket := some socket }
  unfold changeRemote
  dsimp only
  split
  · obtain ⟨capacity, hcapacity⟩ := hcapacity (resetMtuStateMachine (deferRemoteChange (seqOfChange x.tx)
      onRemoteChanged x))
    exact ⟨_, onRemoteChanged, capacity, hcapacity⟩
  · obtain ⟨capacity, hcapacity⟩ := hcapacity (resetMtuStateMachine x)
    exact ⟨x.peer, s.handlers.onRemoteChanged, capacity, hcapacity⟩

def udxStreamChangeRemote (socket : Socket) (remoteId : SeqNo) (addr : SockAddr)
    (onRemoteChanged : Bool) (s : Stream) : Stream × Ret :=
  if s.st.dead || s.io.teardown then (s, .einval)
  else if !s.st.connected then (s, .einval)
  else
    let (s, ok) := setRemoteAddr s.peer.socket addr s
    if !ok then (s, .einval) else changeRemote socket remoteId onRemoteChanged s

def udxStreamRelayTo (destinationClosed : Bool) (s : Stream) : Stream × Ret :=
  if s.peer.relayed || destinationClosed then (s, .einval)
  else (s.withPeer fun peer => { peer with relayed := true, relayTo := true }, .ok 0)

/-! ### Settings -/

def udxStreamSetKeepalive (ms : ℕ) (s : Stream) : Stream × Ret :=
  let s := s.withTm fun tm => { tm with keepaliveTimeoutMs := ms }
  if s.tx.remoteAcked = s.tx.seq ∧ ms ≠ 0 ∧ s.st.connected = true then
    (streamTimerStart .keepalive ms s, .ok 0)
  else (s, .ok 0)

def udxStreamSetRwndMax (size : ℕ) (s : Stream) : Stream × Ret :=
  (s.withRx fun rx => { rx with recvRwndMax := size }, .ok 0)

def udxStreamFirewall (set : Bool) (s : Stream) : Stream × Ret :=
  (s.withHandlers fun hs => { hs with onFirewall := set }, .ok 0)

def udxStreamRecvStart (s : Stream) : Stream × Ret :=
  if s.st.receiving then (s, .ealready)
  else
    ((s.withHandlers fun hs => { hs with onRecv := true }).withSt fun st =>
      { st with receiving := true }, .ok 0)

def udxStreamRecvStop (s : Stream) : Stream × Ret :=
  if s.st.receiving then
    ((s.withHandlers fun hs => { hs with onRecv := false }).withSt fun st =>
      { st with receiving := false }, .ok 0)
  else (s, .ok 0)

def udxStreamReadStart (s : Stream) : Stream × Ret :=
  if s.st.reading then (s, .ealready)
  else
    ((s.withHandlers fun hs => { hs with onRead := true }).withSt fun st =>
      { st with reading := true }, .ok 0)

def udxStreamWriteResume (set : Bool) (s : Stream) : Stream × Ret :=
  (s.withHandlers fun hs => { hs with onDrain := set }, .ok 0)

/-! ### Sending -/

/-- The message packet. The truth value tells whether `on_send` is called at
once: libuv has not queued the packet. -/
def messageSend (data : List UInt8) (onSend : Bool) (s : Stream) : Stream × Bool :=
  let d := (udxWriteHeader env UDX_HEADER_MESSAGE s.peer.remoteId s).encode ++ data
  (sendCopy env (.message onSend) s.peer.dest d s,
    decide (env.trySend s.io.calls ≠ .again) && onSend)

def udxStreamSend (data : List UInt8) (onSend : Bool) (s : Stream) : Stream × Ret :=
  if !s.st.connected then (s, .enotconn)
  else
    let (s, sent) := messageSend env data onSend s
    (s.invokeIf cb sent .sent, .ok 0)

/-- The buffers of a write join the write queue; `last` is the number of
those that follow. -/
def queueBufs (write : ℕ) (isWriteEnd : Bool) : List (List UInt8) → Tx → Tx
  | [], t => t
  | buf :: rest, t =>
    let b := t.nwbufs
    let t := t.setWbuf b fun _ =>
      { buf := buf, write := write, isWriteEnd := isWriteEnd && rest.isEmpty }
    let t := t.setWrite write fun w => { w with size := w.size + buf.length }
    queueBufs write isWriteEnd rest { t with
      nwbufs := b + 1
      bytesQueued := t.bytesQueued + buf.length
      writesQueuedBytes := t.writesQueuedBytes + buf.length
      writeQueue := t.writeQueue ++ [b] }

/-- A new write with its buffers. -/
def Tx.queueWrite (bufs : List (List UInt8)) (onAck isWriteEnd : Bool) (t : Tx) : Tx :=
  let w := t.nwrites
  let t := t.setWrite w fun _ => { isWriteEnd := isWriteEnd, onAck := onAck }
  queueBufs w isWriteEnd bufs { t with nwrites := w + 1 }

/-- An idle stream whose peer has no window starts to probe for it. -/
def probeWindow (streamWasIdle : Bool) (s : Stream) : Stream :=
  if streamWasIdle && s.win.sendRwnd == 0 then
    let s := sendProbe env s
    streamTimerStart .zwp s.cc.rto s
  else s

/-- `_udx_stream_write` before it sends. -/
def queueWrite (bufs : List (List UInt8)) (onAck isWriteEnd : Bool) (s : Stream) : Stream :=
  let streamWasIdle := decide (s.tx.writesQueuedBytes = 0)
  probeWindow env streamWasIdle (s.withTx fun tx => tx.queueWrite bufs onAck isWriteEnd)

def _udxStreamWrite (bufs : List (List UInt8)) (onAck isWriteEnd : Bool) (s : Stream) : Stream :=
  sendPackets env (queueWrite env bufs onAck isWriteEnd s)

/-- The high watermark, and what a write returns. -/
def writeResult (s : Stream) : Stream × Ret :=
  if s.tx.writesQueuedBytes > add32 UDX_HIGH_WATERMARK (sendWindowInBytes s) then
    (s.withWin fun win => { win with hitHighWatermark := true }, .ok 0)
  else (s, .ok 1)

def udxStreamWrite (bufs : List (List UInt8)) (onAck : Bool) (s : Stream) : Stream × Ret :=
  if !s.st.connected then (s, .enotconn)
  else if s.st.ending then (s, .epipe)
  else if bufs.length = 0 then (s, .einval)
  else writeResult (_udxStreamWrite env bufs onAck false s)

/-- A stream that ends first will have to wait for the last ack of the other
end. -/
def setEnding (s : Stream) : Stream :=
  s.withSt fun st => { st with
    timewaitWanted := if st.endedRemote then st.timewaitWanted else true
    ending := true }

def udxStreamWriteEnd (bufs : List (List UInt8)) (onAck : Bool) (s : Stream) : Stream × Ret :=
  if !s.st.connected then (s, .enotconn)
  else if s.st.ending then (s, .epipe)
  else
    let bufs := if bufs.length > 0 then bufs else [[]]
    writeResult (_udxStreamWrite env bufs onAck true (setEnding s))

/-! ### Calls -/

def setTeardown (s : Stream) : Stream := s.withIo fun io => { io with teardown := true }

def runCall : Call → Stream → Stream × Ret
  | .connect socket remoteId addr, s => udxStreamConnect env cb socket remoteId addr s
  | .changeRemote socket remoteId addr changed, s =>
    udxStreamChangeRemote socket remoteId addr changed s
  | .relayTo destinationClosed, s => udxStreamRelayTo destinationClosed s
  | .setKeepalive ms, s => udxStreamSetKeepalive ms s
  | .setRwndMax size, s => udxStreamSetRwndMax size s
  | .firewall set, s => udxStreamFirewall set s
  | .recvStart, s => udxStreamRecvStart s
  | .recvStop, s => udxStreamRecvStop s
  | .readStart, s => udxStreamReadStart s
  | .readStop, s => udxStreamReadStop s
  | .send data onSend, s => udxStreamSend env cb data onSend s
  | .writeResume set, s => udxStreamWriteResume set s
  | .write bufs onAck, s => udxStreamWrite env bufs onAck s
  | .writeEnd bufs onAck, s => udxStreamWriteEnd env bufs onAck s
  | .destroy, s => udxStreamDestroy env cb s
  | .teardown, s => udxStreamDestroy env cb (setTeardown s)

/-- An API call, with the log of it. -/
def call (c : Call) (s : Stream) : Stream :=
  let (s, r) := runCall env cb c (s.note (.call c s.toCore))
  s.note (.result r)

/-! ### Events -/

/-- The callback of the stream timer. -/
def runTimer : Timer → Stream → Stream
  | .none, s => s
  | .rto, s => udxRtoTimeout env cb s
  | .rackReo, s => udxRackReoTimeout env s
  | .tlp, s => udxTlpTimeout env s
  | .zwp, s => udxZwpTimeout env s
  | .keepalive, s => udxKeepaliveTimeout env s

def clearTimer (s : Stream) : Stream := s.withTm fun tm => { tm with timer := none }

/-- The stream timer, where it has expired. -/
def fireTimer (s : Stream) : Stream :=
  match s.tm.timer with
  | none => s
  | some (timer, due) => if due > s.io.now then s else runTimer env cb timer (clearTimer s)

def clearPacing (s : Stream) : Stream := s.withTm fun tm => { tm with refillPacingTimer := none }

def firePacing (s : Stream) : Stream :=
  match s.tm.refillPacingTimer with
  | none => s
  | some due => if due > s.io.now then s else pacingTimerTimeout env (clearPacing s)

def firePrepare (s : Stream) : Stream :=
  if s.tm.pendingPacketPrepare then onPendingPacketPrepare env s else s

/-- A packet leaves libuv's queue: only now its bytes are read. -/
def uvSent (i : ℕ) (s : Stream) : Stream :=
  match s.tx.uvq[i]? with
  | none => s
  | some u =>
    if u.sent then s
    else
      (s.note (.wire (.packet u.pkt) u.dest (s.tx.gather u.bufs))).withTx fun tx =>
        { tx with uvq := tx.uvq.set i { u with sent := true } }

/-- `on_stream_data_write`. -/
def uvDone (i : ℕ) (s : Stream) : Stream :=
  match s.tx.uvq[i]? with
  | none => s
  | some u => derefPacket u.pkt (s.withTx fun tx => { tx with uvq := tx.uvq.eraseIdx i })

def copySent (i : ℕ) (s : Stream) : Stream :=
  match s.io.copies[i]? with
  | none => s
  | some u =>
    if u.sent then s
    else
      (s.note (.wire u.kind u.dest u.bytes)).withIo fun io =>
        { io with copies := io.copies.set i { u with sent := true } }

def dropCopy (i : ℕ) (s : Stream) : Stream :=
  s.withIo fun io => { io with copies := io.copies.eraseIdx i }

/-- The completion of a datagram that was copied. -/
def copyDone (i : ℕ) (s : Stream) : Stream :=
  match s.io.copies[i]? with
  | none => s
  | some u =>
    let s := dropCopy i s
    match u.kind with
    | .destroy => streamOnDestroySend env cb s
    | .message onSend => s.invokeIf cb onSend .sent
    | _ => s

def timewaitTimeout (s : Stream) : Stream :=
  match s.io.timewait with
  | none => s
  | some tw => if tw.due > s.io.now then s else s.withIo fun io => { io with timewait := none }

def clearRelayTo (s : Stream) : Stream := s.withPeer fun peer => { peer with relayTo := false }

/-- The destination of a relay closes. -/
def relayClosed (s : Stream) : Stream :=
  if s.peer.relayTo then (udxStreamDestroy env cb (clearRelayTo s)).1 else s

def tick (ms : ℕ) (s : Stream) : Stream := s.withIo fun io => { io with now := io.now + ms }

def runEvent : Event → Stream → Stream
  | .call c, s => call env cb c s
  | .recv d same, s => processPacket env cb d same s
  | .timer, s => fireTimer env cb s
  | .pacing, s => firePacing env s
  | .prepare, s => firePrepare env s
  | .uvSent i, s => uvSent i s
  | .uvDone i, s => uvDone i s
  | .copySent i, s => copySent i s
  | .copyDone i, s => copyDone env cb i s
  | .tick ms, s => tick ms s
  | .timewaitTimeout, s => timewaitTimeout s
  | .relayClosed, s => relayClosed env cb s

/-- No call is in progress. -/
def Control.idle (c : Control) : Control := { pktCancelled := c.pktCancelled }

/-- The ghost mark of an event that begins. -/
def beginEvent (e : Event) (s : Stream) : Stream := s.note (.event e s.toCore)

/-- The ghost marks of an event that is over. -/
def finishEvent (s : Stream) : Stream := s.withCtl Control.idle

/-- One event, from one return to the event loop to the next. -/
def step (e : Event) (s : Stream) : Stream := finishEvent (runEvent env cb e (beginEvent e s))

end

/-! ### Runs -/

/-- A fresh stream, after `udx_stream_set_seq` and `udx_stream_set_ack`. -/
structure Config where
  localId : SeqNo
  seq : SeqNo
  ack : SeqNo
  now : ℕ
  onClose : Bool := false

/-- `udx_stream_init`, `udx_stream_set_seq` and `udx_stream_set_ack`. -/
def init (env : Env) (cfg : Config) : Stream :=
  let s : Stream :=
    { rx := { ack := cfg.ack }
      tx := { seq := cfg.seq, remoteAcked := cfg.seq }
      win := { sendWl1 := cfg.ack, sendWl2 := cfg.seq }
      cc :=
        { appLimited := -1
          rttMin := WinFilter.reset cfg.now (2 ^ 32 - 1)
          tbLastRefillMs := cfg.now
          bbr := { minRttStamp := cfg.now, ackEpochStart := cfg.now } }
      peer := { localId := cfg.localId }
      handlers := { onClose := cfg.onClose }
      io := { now := cfg.now } }
  let s := bbrInitPacingRateFromRtt env s
  s.withTx fun tx => { tx with pktCapacity := udxMaxPayload s }

/-- Any number of API calls, one after another. -/
def Calls (env : Env) (cb : Hook) : Stream → Stream → Prop :=
  Relation.ReflTransGen fun s s' => ∃ c, s' = call env cb c s

/-- Callbacks that make API calls, whose callbacks make API calls, and so on
to some depth. -/
inductive Layered (env : Env) : Hook → Prop
  | quiet : Layered env fun _ s => s
  | reacts {cb cb' : Hook} :
    Layered env cb → (∀ c s, Calls env cb s (cb' c s)) → Layered env cb'

/-- The states between events. -/
inductive Reach (env : Env) (cfg : Config) : Stream → Prop
  | init : Reach env cfg (init env cfg)
  | step {s cb} (e : Event) : Reach env cfg s → Layered env cb → Reach env cfg (step env cb e s)

end Udx
