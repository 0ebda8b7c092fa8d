/-
# What API calls leave alone

An API call, or a callback that makes some, leaves alone the locals of the
`process_packet` it runs in, `remote_acked`, `ack` and what was delivered, and
a dead stream stays dead.

Key definitions: `Keeps`, `Closed`.
Key theorems: `CallPath.keeps`, `PlainPath.closed`.
-/
import Udx.Frames

namespace Udx

open Serial

/-- The locals of the calls in progress, but for those of closing. -/
def Control.frame (c : Control) : Control := { c with cancelling := [], pktCancelled := false }

/-- What no call changes. -/
structure Kept where
  ctl : Control
  remoteAcked : SeqNo
  delivered : SeqNo
  ack : SeqNo
  taken : ℕ
  ended : Bool
  localId : SeqNo
  now : ℕ
  event : Option (Event × Core)

def Stream.kept (s : Stream) : Kept :=
  { ctl := s.ctl.frame, remoteAcked := s.tx.remoteAcked,
    delivered := s.cc.delivered, ack := s.rx.ack, taken := s.rx.taken, ended := s.st.ended,
    localId := s.peer.localId, now := s.io.now, event := s.event? }

/-- What one call, or several, may do from `s` to `t`. -/
structure Keeps (s t : Stream) : Prop where
  kept : t.kept = s.kept
  log : ∃ l, t.log = l ++ s.log
  dead : s.st.dead = true → t.st.dead = true
  closed : s.st.closed = true → t.st.closed = true
  outstanding : t.st.dead = false → t.tx.span < 2 ^ 32 → s.tx.seq ≠ s.tx.remoteAcked →
    t.tx.seq ≠ t.tx.remoteAcked
  span : s.tx.span ≤ t.tx.span
  flight : t.st.dead = false → t.tx.span < 2 ^ 32 → s.tx.seq ≠ s.tx.remoteAcked →
    t.cc.firstSentTs = s.cc.firstSentTs

namespace Keeps

variable {s t u : Stream}

theorem refl (s : Stream) : Keeps s s :=
  ⟨rfl, ⟨[], rfl⟩, id, id, fun _ _ => id, Nat.le_refl _, fun _ _ _ => rfl⟩

theorem trans (h : Keeps s t) (h' : Keeps t u) : Keeps s u := by
  obtain ⟨l, hl⟩ := h.log
  obtain ⟨l', hl'⟩ := h'.log
  have hlive : u.st.dead = false → t.st.dead = false := by
    intro hdead
    cases hd : t.st.dead
    · rfl
    · rw [h'.dead hd] at hdead
      cases hdead
  have hout : u.st.dead = false → u.tx.span < 2 ^ 32 → s.tx.seq ≠ s.tx.remoteAcked →
      t.tx.seq ≠ t.tx.remoteAcked :=
    fun hdead hn => h.outstanding (hlive hdead) (Nat.lt_of_le_of_lt h'.span hn)
  exact ⟨h'.kept.trans h.kept, ⟨l' ++ l, by rw [hl', hl, List.append_assoc]⟩, h'.dead ∘ h.dead,
    h'.closed ∘ h.closed, fun hdead hn hs => h'.outstanding hdead hn (hout hdead hn hs),
    Nat.le_trans h.span h'.span, fun hdead hn hs => (h'.flight hdead hn (hout hdead hn hs)).trans
      (h.flight (hlive hdead) (Nat.lt_of_le_of_lt h'.span hn) hs)⟩

theorem mem_log (h : Keeps s t) {e : Entry} (he : e ∈ s.log) : e ∈ t.log := by
  obtain ⟨l, hl⟩ := h.log
  rw [hl]
  exact List.mem_append_right _ he

theorem live (h : Keeps s t) (ht : t.st.dead = false) : s.st.dead = false := by
  cases hd : s.st.dead
  · rfl
  · rw [h.dead hd] at ht
    cases ht

section

variable (h : Keeps s t)
include h

theorem ctl : t.ctl.frame = s.ctl.frame := congrArg Kept.ctl h.kept
theorem packet : t.ctl.packet = s.ctl.packet := congrArg (fun k => k.ctl.packet) h.kept
theorem cursor : t.ctl.cursor = s.ctl.cursor := congrArg (fun k => k.ctl.cursor) h.kept
theorem sacksLeft : t.ctl.sacksLeft = s.ctl.sacksLeft :=
  congrArg (fun k => k.ctl.sacksLeft) h.kept
theorem acking : t.ctl.acking = s.ctl.acking := congrArg (fun k => k.ctl.acking) h.kept
theorem ackDue : t.ctl.ackDue = s.ctl.ackDue := congrArg (fun k => k.ctl.ackDue) h.kept
theorem ackPkt : t.ctl.ackPkt = s.ctl.ackPkt := congrArg (fun k => k.ctl.ackPkt) h.kept
theorem draining : t.ctl.draining = s.ctl.draining := congrArg (fun k => k.ctl.draining) h.kept
theorem processing : t.ctl.processing = s.ctl.processing :=
  congrArg (fun k => k.ctl.processing) h.kept
theorem connecting : t.ctl.connecting = s.ctl.connecting :=
  congrArg (fun k => k.ctl.connecting) h.kept
theorem rs : t.ctl.rs = s.ctl.rs := congrArg (fun k => k.ctl.rs) h.kept
theorem remoteAcked : t.tx.remoteAcked = s.tx.remoteAcked := congrArg Kept.remoteAcked h.kept
theorem delivered : t.cc.delivered = s.cc.delivered := congrArg Kept.delivered h.kept
theorem ack : t.rx.ack = s.rx.ack := congrArg Kept.ack h.kept
theorem taken : t.rx.taken = s.rx.taken := congrArg Kept.taken h.kept
theorem ended : t.st.ended = s.st.ended := congrArg Kept.ended h.kept
theorem localId : t.peer.localId = s.peer.localId := congrArg Kept.localId h.kept
theorem event? : t.event? = s.event? := congrArg Kept.event h.kept

end

/-- The steps that number no packet. -/
theorem of_eq (hk : t.kept = s.kept) (hl : ∃ l, t.log = l ++ s.log)
    (hd : s.st.dead = true → t.st.dead = true) (hc : s.st.closed = true → t.st.closed = true)
    (hs : t.tx.seq = s.tx.seq) (hn : t.tx.span = s.tx.span) (hf : t.cc.firstSentTs = s.cc.firstSentTs) :
    Keeps s t := by
  refine ⟨hk, hl, hd, hc, fun _ _ h => ?_, Nat.le_of_eq hn.symm, fun _ _ _ => hf⟩
  rw [hs, show t.tx.remoteAcked = s.tx.remoteAcked from congrArg Kept.remoteAcked hk]
  exact h

theorem sends (h : Sends s t) : Keeps s t := by
  obtain ⟨l, hl, -⟩ := h.log
  refine ⟨?_, ⟨l, hl⟩, fun hd => h.st ▸ hd, fun hc => h.st ▸ hc, fun _ hn hs => ?_, h.span,
    fun _ => h.flight⟩
  · unfold Stream.kept
    rw [h.ctl, h.remoteAcked, h.delivered, h.rx, h.st, h.peer, h.now, h.event?]
  · rcases h.grows.outstanding hn with hseq | hseq
    · rw [hseq, h.remoteAcked]
      exact hs
    · exact hseq

/-! ### The parts of a stream -/

section

variable (h : Keeps s t)
include h

theorem andSends (h' : Sends t u) : Keeps s u := h.trans (.sends h')

theorem note {e : Entry} (he : ∀ ev pre, e ≠ .event ev pre) : Keeps s (t.note e) := by
  refine h.trans (.of_eq ?_ ⟨[e], rfl⟩ id id rfl rfl rfl)
  cases e with
  | event ev pre => exact absurd rfl (he ev pre)
  | _ => rfl

theorem check (a : Site) (p : Prop) [Decidable p] : Keeps s (t.check a p) :=
  h.andSends ((Sends.refl t).check a p)

theorem announce (on : Bool) (c : Callback) : Keeps s (t.announce on c) := by
  unfold Stream.announce
  split
  · exact h.note (fun _ _ => by simp)
  · exact h

theorem withSt {f : Status → Status} (hd : t.st.dead = true → (f t.st).dead = true)
    (hc : t.st.closed = true → (f t.st).closed = true) (he : (f t.st).ended = t.st.ended) :
    Keeps s (t.withSt f) :=
  h.trans (.of_eq (congrArg (fun x => { t.kept with ended := x }) he) ⟨[], rfl⟩ hd hc rfl rfl rfl)

theorem withRx {f : Rx → Rx} (ha : (f t.rx).ack = t.rx.ack) (ht : (f t.rx).taken = t.rx.taken) :
    Keeps s (t.withRx f) :=
  h.trans (.of_eq (congrArg₂ (fun x y => { t.kept with ack := x, taken := y }) ha ht) ⟨[], rfl⟩
    id id rfl rfl rfl)

theorem withTx {f : Tx → Tx} (hr : (f t.tx).remoteAcked = t.tx.remoteAcked)
    (hs : (f t.tx).seq = t.tx.seq) (hn : (f t.tx).span = t.tx.span) : Keeps s (t.withTx f) :=
  h.trans (.of_eq (congrArg (fun x => { t.kept with remoteAcked := x }) hr) ⟨[], rfl⟩ id id hs hn rfl)

theorem withWin (f : Win → Win) : Keeps s (t.withWin f) :=
  h.trans (.of_eq rfl ⟨[], rfl⟩ id id rfl rfl rfl)

theorem withTm (f : Timers → Timers) : Keeps s (t.withTm f) :=
  h.trans (.of_eq rfl ⟨[], rfl⟩ id id rfl rfl rfl)

theorem withMtu (f : Mtu → Mtu) : Keeps s (t.withMtu f) :=
  h.trans (.of_eq rfl ⟨[], rfl⟩ id id rfl rfl rfl)

theorem withHandlers (f : Handlers → Handlers) : Keeps s (t.withHandlers f) :=
  h.trans (.of_eq rfl ⟨[], rfl⟩ id id rfl rfl rfl)

theorem withPeer {f : Peer → Peer} (hf : (f t.peer).localId = t.peer.localId) :
    Keeps s (t.withPeer f) :=
  h.trans (.of_eq (congrArg (fun x => { t.kept with localId := x }) hf) ⟨[], rfl⟩ id id rfl rfl rfl)

theorem withIo {f : Io → Io} (hf : (f t.io).now = t.io.now) : Keeps s (t.withIo f) :=
  h.trans (.of_eq (congrArg (fun x => { t.kept with now := x }) hf) ⟨[], rfl⟩ id id rfl rfl rfl)

theorem withCtl {f : Control → Control} (hf : (f t.ctl).frame = t.ctl.frame) :
    Keeps s (t.withCtl f) :=
  h.trans (.of_eq (congrArg (fun x => { t.kept with ctl := x }) hf) ⟨[], rfl⟩ id id rfl rfl rfl)

/-! ### Connecting -/

theorem setRemoteAddr (socket : Option Socket) (addr : SockAddr) :
    Keeps s (setRemoteAddr socket addr t).1 := by
  unfold Udx.setRemoteAddr
  dsimp only
  split_ifs <;> dsimp only
  · exact h
  · exact h.withPeer rfl
  · exact (h.withPeer rfl).withPeer rfl
  · exact (h.withPeer rfl).withPeer rfl

variable (env : Env)

theorem connectBind (socket : Socket) (id : SeqNo) (addr : SockAddr) :
    Keeps s (connectBind env socket id addr t).1 := by
  have hst : Keeps s (t.withSt fun st => { st with connected := true }) :=
    h.withSt (fun x => x) (fun x => x) rfl
  have haddr := (hst.withPeer (f := fun peer =>
    { peer with remoteId := id, socket := some socket }) rfl).setRemoteAddr (some socket) addr
  unfold Udx.connectBind
  dsimp only
  split
  · exact haddr.withMtu _
  · exact haddr

theorem connectKeepalive : Keeps s (connectKeepalive t) := by
  have hnote : Keeps s (t.note (.reached .connectKeepalive t.toCore)) := h.note (fun _ _ => by simp)
  unfold Udx.connectKeepalive
  dsimp only
  split
  · exact hnote.andSends ((Sends.refl _).streamTimerStart _ _)
  · exact hnote

/-! ### Acknowledging -/

theorem sendCopy (k : Kind) (dest : Dest) (d : List UInt8) : Keeps s (sendCopy env k dest d t) :=
  h.andSends ((Sends.refl t).sendCopy env k dest d)

theorem setEndedRemote : Keeps s (setEndedRemote t) := by
  unfold Udx.setEndedRemote
  exact h.withSt (fun x => x) (fun x => x) rfl

theorem ackOut : Keeps s (ackOut env t) := by
  have hsend := h.sendCopy env .ack t.peer.dest (ackDatagram env t)
  unfold Udx.ackOut
  dsimp only
  split
  · exact hsend.setEndedRemote.announce _ _
  · exact hsend

/-! ### Closing -/

theorem markDead : Keeps s (markDead t) := by
  unfold Udx.markDead
  split
  · exact h
  · exact h.note (fun _ _ => by simp)

theorem dropTimewait : Keeps s (dropTimewait t) := by
  unfold Udx.dropTimewait
  exact h.withSt (fun x => x) (fun x => x) rfl

theorem setClosed : Keeps s (setClosed t) := by
  unfold Udx.setClosed
  exact h.withSt (fun _ => by simp [Status.dead]) (fun _ => rfl) rfl

theorem closeStart (err : CloseErr) : Keeps s (closeStart env err t) := by
  have hclosed := ((h.check .closeTwice (t.st.closed = false)).markDead).setClosed
  have hbegin : Keeps s (closeBegin env t) := by
    unfold closeBegin
    dsimp only
    split
    · unfold streamTimewait
      exact hclosed.withIo rfl
    · exact hclosed
  unfold Udx.closeStart
  exact hbegin.announce _ _

theorem closeUnlessDestroying (err : CloseErr) : Keeps s (closeUnlessDestroying env err t) := by
  have hdrop : Keeps s (dropTimewaitOnError err t) := by
    unfold dropTimewaitOnError
    split
    · exact h.dropTimewait
    · exact h
  unfold Udx.closeUnlessDestroying
  dsimp only
  split
  · exact hdrop
  · exact hdrop.closeStart env err

theorem checkEnded : Keeps s (checkEnded t) := by
  unfold Udx.checkEnded
  exact (h.check _ _).check _ _

theorem closeEnded : Keeps s (closeEnded env t) := by
  unfold Udx.closeEnded
  exact h.checkEnded.closeUnlessDestroying env _

theorem setDestroying : Keeps s (setDestroying t) := by
  unfold Udx.setDestroying
  exact h.markDead.withSt (fun _ => by simp [Status.dead]) (fun x => x) rfl

theorem destroyStart : Keeps s (destroyStart env t) := by
  have hset := h.setDestroying
  have hreach : Keeps s ((Udx.setDestroying t).note (.reached .destroySend (Udx.setDestroying t).toCore)) :=
    hset.note (fun _ _ => by simp)
  have hseq := (Sends.refl ((Udx.setDestroying t).note
    (.reached .destroySend (Udx.setDestroying t).toCore))).advanceSeq
  unfold Udx.destroyStart
  dsimp only
  split
  · exact hset.closeStart env .none
  · unfold destroySend queueCopy
    exact (hreach.andSends hseq).sendCopy env _ _ _

theorem countBytes (b bytes : ℕ) (cancelled : Bool) : Keeps s (countBytes b bytes cancelled t) := by
  have hcheck : Keeps s (checkBytes b bytes cancelled t) := by
    unfold checkBytes
    dsimp only
    split
    · exact ((h.check _ _).check _ _).check _ _
    · exact (((h.check _ _).check _ _).check _ _).check _ _
  unfold Udx.countBytes
  exact hcheck.withTx rfl rfl rfl

theorem setCancelling (bufs : List Chunk) : Keeps s (setCancelling bufs t) := by
  unfold Udx.setCancelling
  exact h.withCtl rfl

theorem derefPacket (k : ℕ) : Keeps s (derefPacket k t) := by
  unfold Udx.derefPacket
  exact h.withTx rfl rfl rfl

theorem releaseHandles : Keeps s (releaseHandles t) := by
  have hin : Keeps s (clearIncomingPackets t) := by
    unfold clearIncomingPackets
    exact h.withRx rfl rfl
  have hstop : Keeps s (udxStreamReadStop (clearIncomingPackets t)).1 := by
    unfold udxStreamReadStop
    split <;> dsimp only
    · exact (hin.withHandlers _).withSt (fun x => x) (fun x => x) rfl
    · exact hin
  unfold Udx.releaseHandles dropOutgoing closeHandles
  exact (hstop.withTx rfl rfl rfl).withTm _

end

end Keeps

/-! ### Calls without callbacks -/

/-- What queueing a write leaves alone. -/
def Tx.unqueued (t : Tx) : Tx :=
  { t with
    wbufs := fun _ => {}
    writes := fun _ => {}
    nwbufs := 0
    nwrites := 0
    bytesQueued := 0
    writesQueuedBytes := 0
    writeQueue := [] }

theorem queueBufs_unqueued (w : ℕ) (e : Bool) (bufs : List (List UInt8)) (t : Tx) :
    (queueBufs w e bufs t).unqueued = t.unqueued := by
  induction bufs generalizing t with
  | nil => rfl
  | cons buf rest ih => exact (ih _).trans rfl

theorem queueWrite_unqueued (bufs : List (List UInt8)) (onAck e : Bool) (t : Tx) :
    (t.queueWrite bufs onAck e).unqueued = t.unqueued :=
  (queueBufs_unqueued _ _ _ _).trans rfl

namespace Keeps

variable {s t u : Stream} (env : Env)

theorem _udxStreamWrite (h : Keeps s t) (bufs : List (List UInt8)) (onAck e : Bool) :
    Keeps s (_udxStreamWrite env bufs onAck e t) := by
  have hsame := queueWrite_unqueued bufs onAck e t.tx
  have hr := congrArg Tx.remoteAcked hsame
  have hs := congrArg Tx.seq hsame
  have hn := congrArg Tx.span hsame
  have hqueue : Keeps s (t.withTx fun tx => tx.queueWrite bufs onAck e) := h.withTx hr hs hn
  have hprobe : Keeps s (queueWrite env bufs onAck e t) := by
    unfold queueWrite probeWindow
    dsimp only
    split
    · exact hqueue.andSends (((Sends.refl _).sendProbe env).streamTimerStart _ _)
    · exact hqueue
  unfold Udx._udxStreamWrite
  exact hprobe.andSends ((Sends.refl _).sendPackets env)

theorem writeResult (h : Keeps s t) : Keeps s (writeResult t).1 := by
  unfold Udx.writeResult
  split <;> dsimp only
  · exact h.withWin _
  · exact h

theorem changeRemote (h : Keeps s t) (socket : Socket) (id : SeqNo) (cb : Bool) :
    Keeps s (changeRemote socket id cb t).1 := by
  have hcapacity : ∀ {x : Stream}, Keeps s x → Keeps s (resetCapacity (resetMtuStateMachine x)) := by
    intro x hx
    unfold resetCapacity
    split
    · exact hx.withMtu _
    · exact (hx.withMtu _).withTx rfl rfl rfl
  have hpeer : Keeps s (t.withPeer fun peer =>
    { peer with remoteId := id, socket := some socket }) := h.withPeer rfl
  unfold Udx.changeRemote
  dsimp only
  split <;> dsimp only
  · unfold deferRemoteChange
    exact hcapacity ((hpeer.withPeer rfl).withHandlers _)
  · exact hcapacity hpeer

theorem setHandler (h : Keeps s t) {f : Status → Status} (g : Handlers → Handlers)
    (hd : t.st.dead = true → (f t.st).dead = true)
    (hc : t.st.closed = true → (f t.st).closed = true) (he : (f t.st).ended = t.st.ended) :
    Keeps s ((t.withHandlers g).withSt f) :=
  (h.withHandlers g).withSt hd hc he

/-- One case for each call that never calls back. -/
theorem runCall_plain {c : Call} (hc : c.plain = true) (h : Keeps s t) :
    Keeps s (runCall env Hook.quiet c t).1 := by
  cases c with
  | connect socket id addr => cases hc
  | send data onSend => cases hc
  | destroy => cases hc
  | teardown => cases hc
  | changeRemote socket id addr cb =>
    have haddr := h.setRemoteAddr t.peer.socket addr
    simp only [runCall, udxStreamChangeRemote]
    split_ifs <;> try dsimp only
    · exact h
    · exact h
    · exact haddr
    · exact haddr.changeRemote _ _ _
  | relayTo destinationClosed =>
    simp only [runCall, udxStreamRelayTo]
    split <;> dsimp only
    · exact h
    · exact h.withPeer rfl
  | setKeepalive ms =>
    simp only [runCall, udxStreamSetKeepalive]
    split <;> dsimp only
    · exact (h.withTm _).andSends ((Sends.refl _).streamTimerStart _ _)
    · exact h.withTm _
  | setRwndMax size =>
    simp only [runCall, udxStreamSetRwndMax]
    exact h.withRx rfl rfl
  | firewall set =>
    simp only [runCall, udxStreamFirewall]
    exact h.withHandlers _
  | recvStart =>
    simp only [runCall, udxStreamRecvStart]
    split <;> dsimp only
    · exact h
    · exact h.setHandler _ (fun x => x) (fun x => x) rfl
  | recvStop =>
    simp only [runCall, udxStreamRecvStop]
    split <;> dsimp only
    · exact h.setHandler _ (fun x => x) (fun x => x) rfl
    · exact h
  | readStart =>
    simp only [runCall, udxStreamReadStart]
    split <;> dsimp only
    · exact h
    · exact h.setHandler _ (fun x => x) (fun x => x) rfl
  | readStop =>
    simp only [runCall, udxStreamReadStop]
    split <;> dsimp only
    · exact h.setHandler _ (fun x => x) (fun x => x) rfl
    · exact h
  | writeResume set =>
    simp only [runCall, udxStreamWriteResume]
    exact h.withHandlers _
  | write bufs onAck =>
    simp only [runCall, udxStreamWrite]
    split_ifs <;> try dsimp only
    · exact h
    · exact h
    · exact h
    · exact (h._udxStreamWrite env _ _ _).writeResult
  | writeEnd bufs onAck =>
    have hending : Keeps s (setEnding t) := by
      unfold setEnding
      exact h.withSt (fun x => x) (fun x => x) rfl
    simp only [runCall, udxStreamWriteEnd]
    split_ifs <;> try dsimp only
    · exact h
    · exact h
    · exact (hending._udxStreamWrite env _ _ _).writeResult
    · exact (hending._udxStreamWrite env _ _ _).writeResult

end Keeps

/-! ### Moves and paths of calls -/

variable {env : Env}

theorem PlainMove.keeps {s t : Stream} (h : PlainMove env s t) : Keeps s t := by
  cases h with
  | call c _ hc =>
    have henter : Keeps s (s.note (.call c s.toCore)) := (Keeps.refl s).note (fun _ _ => by simp)
    have hrun := henter.runCall_plain env hc
    unfold Udx.call
    exact hrun.note (fun _ _ => by simp)
  | enter => exact (Keeps.refl s).note (fun _ _ => by simp)
  | result => exact (Keeps.refl s).note (fun _ _ => by simp)
  | returned => exact (Keeps.refl s).note (fun _ _ => by simp)
  | teardown => exact (Keeps.refl s).withIo rfl

theorem CallMove.keeps {s t : Stream} (h : CallMove env s t) : Keeps s t := by
  have hs := Keeps.refl s
  cases h with
  | plain hm => exact hm.keeps
  | bind => exact (hs.note (fun _ _ => by simp)).connectBind env _ _ _
  | keepalive => exact hs.connectKeepalive
  | message => exact (hs.sendCopy env _ _ _).announce _ _
  | deferAck => exact hs.withRx rfl rfl
  | ackOut => exact hs.ackOut env
  | closeEnded => exact hs.closeEnded env
  | dropTimewait => exact hs.dropTimewait
  | destroyStart => exact hs.destroyStart env
  | close err => exact hs.closeStart env err
  | cancelPkt =>
    unfold Udx.cancelPkt markPktCancelled
    exact ((hs.check _ _).withCtl rfl).setCancelling _
  | cancelSeq seq k =>
    unfold Udx.cancelSeq removeOutgoing
    exact (hs.withTx rfl rfl rfl).setCancelling _
  | cancelChunk c rest =>
    unfold Udx.cancelChunk announceCancel
    exact ((hs.setCancelling rest).countBytes _ _ _).announce _ _
  | cancelDone k => exact hs.derefPacket k
  | cancelQueued b rest =>
    unfold Udx.cancelQueued announceCancel shiftWriteQueue
    exact ((hs.withTx rfl rfl rfl).countBytes _ _ _).announce _ _
  | release => exact hs.releaseHandles

/-- The mark of `udx_stream_connect` is taken back. -/
theorem Keeps.bracket {s t : Stream} (h : Keeps (setConnecting true s) t) :
    Keeps s (setConnecting s.ctl.connecting (setAckNeeded false t)) := by
  refine ⟨?_, h.log, h.dead, h.closed, h.outstanding, h.span, h.flight⟩
  have hctl : (setConnecting s.ctl.connecting (setAckNeeded false t)).ctl.frame = s.ctl.frame :=
    congrArg (fun c => { c with connecting := s.ctl.connecting }) h.ctl
  have hrest := congrArg (fun k => { k with ctl := s.ctl.frame }) h.kept
  exact (congrArg (fun c => { t.kept with ctl := c }) hctl).trans hrest

theorem CallPath.keeps {s t : Stream} (h : CallPath env s t) : Keeps s t := by
  induction h with
  | refl s => exact .refl s
  | tail _ hm ih => exact ih.trans hm.keeps
  | connecting _ _ ih ih' => exact ih.trans ih'.bracket

/-! ### Closed streams -/

/-- A closed stream, whose calls can only fail. -/
structure Closed (s : Stream) : Prop where
  closed : s.st.closed = true
  disconnected : s.st.connected = false

theorem Closed.dead {s : Stream} (h : Closed s) : s.st.dead = true := by
  simp [Status.dead, h.closed]

theorem PlainMove.closed {s t : Stream} (h : PlainMove env s t) (hs : Closed s) :
    Closed t ∧ t.tx = s.tx ∧ t.ctl = s.ctl := by
  obtain ⟨hcl, hconn⟩ := hs
  have hdead : s.st.dead = true := by simp [Status.dead, hcl]
  cases h with
  | call c _ hc =>
    unfold Udx.call
    cases c with
    | connect socket id addr => cases hc
    | send data onSend => cases hc
    | destroy => cases hc
    | teardown => cases hc
    | changeRemote socket id addr cb =>
      simp only [runCall, udxStreamChangeRemote, Stream.note, hdead, Bool.true_or, if_true]
      exact ⟨⟨hcl, hconn⟩, trivial, trivial⟩
    | relayTo destinationClosed =>
      simp only [runCall, udxStreamRelayTo]
      split <;> exact ⟨⟨hcl, hconn⟩, rfl, rfl⟩
    | setKeepalive ms =>
      simp only [runCall, udxStreamSetKeepalive]
      split
      · next h => exact absurd h.2.2 (by simp [Stream.withTm, Stream.note, hconn])
      · exact ⟨⟨hcl, hconn⟩, rfl, rfl⟩
    | setRwndMax size => exact ⟨⟨hcl, hconn⟩, rfl, rfl⟩
    | firewall set => exact ⟨⟨hcl, hconn⟩, rfl, rfl⟩
    | recvStart =>
      simp only [runCall, udxStreamRecvStart]
      split <;> exact ⟨⟨hcl, hconn⟩, rfl, rfl⟩
    | recvStop =>
      simp only [runCall, udxStreamRecvStop]
      split <;> exact ⟨⟨hcl, hconn⟩, rfl, rfl⟩
    | readStart =>
      simp only [runCall, udxStreamReadStart]
      split <;> exact ⟨⟨hcl, hconn⟩, rfl, rfl⟩
    | readStop =>
      simp only [runCall, udxStreamReadStop]
      split <;> exact ⟨⟨hcl, hconn⟩, rfl, rfl⟩
    | writeResume set => exact ⟨⟨hcl, hconn⟩, rfl, rfl⟩
    | write bufs onAck =>
      simp only [runCall, udxStreamWrite, Stream.note, hconn, Bool.not_false, if_true]
      exact ⟨⟨hcl, hconn⟩, trivial, trivial⟩
    | writeEnd bufs onAck =>
      simp only [runCall, udxStreamWriteEnd, Stream.note, hconn, Bool.not_false, if_true]
      exact ⟨⟨hcl, hconn⟩, trivial, trivial⟩
  | enter => exact ⟨⟨hcl, hconn⟩, rfl, rfl⟩
  | result => exact ⟨⟨hcl, hconn⟩, rfl, rfl⟩
  | returned => exact ⟨⟨hcl, hconn⟩, rfl, rfl⟩
  | teardown => exact ⟨⟨hcl, hconn⟩, rfl, rfl⟩

theorem PlainPath.closed {s t : Stream} (h : PlainPath env s t) (hs : Closed s) :
    Closed t ∧ t.tx = s.tx ∧ t.ctl = s.ctl := by
  induction h with
  | refl => exact ⟨hs, rfl, rfl⟩
  | tail _ hm ih =>
    obtain ⟨hcl, htx, hctl⟩ := hm.closed ih.1
    exact ⟨hcl, htx.trans ih.2.1, hctl.trans ih.2.2⟩

end Udx
