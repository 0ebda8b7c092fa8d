/-
# Backpressure

`udx_stream_write` sets `hit_high_watermark` while more is queued than the high
watermark and the send window, and `on_bytes_acked` clears it below that
threshold. The flag is therefore set only while something is queued, unless the
uint32 sum of the watermark and the window wraps at an acknowledgement. A run
comes to such a window: it grows by a packet a round (`grown`).

Key definitions: `Accrues`, `Stream.wraps`, `Released`.
Key theorems: `CallPath.accrues`, `chunkStage_drains`, `Path.released`,
`grown_stalls`.
-/
import Udx.Growth
import Udx.Loads
import Udx.Tuning

namespace Udx

open Serial

/-! ### Steps that take nothing off the queue -/

theorem queueBufs_queued (w : ℕ) (e : Bool) (bufs : List (List UInt8)) (t : Tx) :
    t.writesQueuedBytes ≤ (queueBufs w e bufs t).writesQueuedBytes := by
  induction bufs generalizing t with
  | nil => exact Nat.le_refl _
  | cons buf rest ih =>
    unfold queueBufs
    refine Nat.le_trans ?_ (ih _)
    exact Nat.le_add_right _ _

theorem queueWrite_queued (bufs : List (List UInt8)) (onAck e : Bool) (t : Tx) :
    t.writesQueuedBytes ≤ (t.queueWrite bufs onAck e).writesQueuedBytes := by
  unfold Tx.queueWrite
  refine Nat.le_trans ?_ (queueBufs_queued _ _ _ _)
  exact Nat.le_refl _

/-- A step that acknowledges nothing: it sets the flag only over a queue, or
closes the stream. -/
structure Accrues (s t : Stream) : Prop where
  dead : s.st.dead = true → t.st.dead = true
  queued : t.st.dead = false → s.tx.writesQueuedBytes ≤ t.tx.writesQueuedBytes
  flag : t.st.dead = false → t.win.hitHighWatermark = true →
    s.win.hitHighWatermark = true ∨ 0 < t.tx.writesQueuedBytes

namespace Accrues

variable {s t u : Stream}

theorem refl (s : Stream) : Accrues s s := ⟨id, fun _ => Nat.le_refl _, fun _ => .inl⟩

/-- A dead stream is no concern of backpressure. -/
theorem of_dead (h : t.st.dead = true) : Accrues s t :=
  ⟨fun _ => h, fun hlive => by simp [h] at hlive, fun hlive => by simp [h] at hlive⟩

theorem trans (h : Accrues s t) (h' : Accrues t u) : Accrues s u := by
  have hlive : u.st.dead = false → t.st.dead = false := by
    intro hu
    cases ht : t.st.dead
    · rfl
    · rw [h'.dead ht] at hu
      cases hu
  refine ⟨h'.dead ∘ h.dead, fun hu => Nat.le_trans (h.queued (hlive hu)) (h'.queued hu),
    fun hu hflag => ?_⟩
  rcases h'.flag hu hflag with ht | hpos
  · exact (h.flag (hlive hu) ht).imp_right fun hpos => Nat.lt_of_lt_of_le hpos (h'.queued hu)
  · exact .inr hpos

theorem closeStart (env : Env) (err : CloseErr) : Accrues s (closeStart env err s) :=
  .of_dead (announce_closed (closeBegin_closed s) _ _).dead

theorem destroyStart (env : Env) : Accrues s (destroyStart env s) := by
  have hset : (setDestroying s).st.dead = true := by simp [setDestroying, Stream.withSt, Status.dead]
  refine .of_dead ?_
  unfold Udx.destroyStart
  dsimp only
  split
  · exact (announce_closed (closeBegin_closed _) _ _).dead
  · unfold destroySend queueCopy
    rw [Sends.st ((Sends.refl _).sendCopy env _ _ _)]
    exact hset

section

variable (h : Accrues s t)
include h

/-- Queue and flag are left alone. -/
theorem still (hd : t.st.dead = true → u.st.dead = true)
    (hq : u.tx.writesQueuedBytes = t.tx.writesQueuedBytes)
    (hw : u.win.hitHighWatermark = t.win.hitHighWatermark) : Accrues s u :=
  h.trans ⟨hd, fun _ => Nat.le_of_eq hq.symm, fun _ hu => .inl (hw ▸ hu)⟩

theorem sends (h' : Sends t u) : Accrues s u :=
  h.still (fun hd => h'.st ▸ hd) h'.writesQueuedBytes (congrArg Win.hitHighWatermark h'.win)

theorem note (e : Entry) : Accrues s (t.note e) := h.still id rfl rfl

theorem check (a : Site) (p : Prop) [Decidable p] : Accrues s (t.check a p) :=
  h.sends ((Sends.refl t).check a p)

theorem announce (on : Bool) (c : Callback) : Accrues s (t.announce on c) := by
  unfold Stream.announce
  split
  · exact h.note _
  · exact h

/-! ### Calls -/

theorem setRemoteAddr (socket : Option Socket) (addr : SockAddr) :
    Accrues s (setRemoteAddr socket addr t).1 := by
  unfold Udx.setRemoteAddr
  dsimp only
  split_ifs <;> exact h.still id rfl rfl

theorem connectBind (env : Env) (socket : Socket) (id : SeqNo) (addr : SockAddr) :
    Accrues s (connectBind env socket id addr t).1 := by
  have hconn : Accrues s ((t.withSt fun st => { st with connected := true }).withPeer fun peer =>
      { peer with remoteId := id, socket := some socket }) := h.still (fun hd => hd) rfl rfl
  have haddr := hconn.setRemoteAddr (some socket) addr
  unfold Udx.connectBind
  dsimp only
  split
  · exact haddr.still (fun hd => hd) rfl rfl
  · exact haddr

theorem connectKeepalive : Accrues s (connectKeepalive t) := by
  have hnote : Accrues s (t.note (.reached .connectKeepalive t.toCore)) := h.note _
  unfold Udx.connectKeepalive
  dsimp only
  split
  · exact hnote.sends ((Sends.refl _).streamTimerStart _ _)
  · exact hnote

theorem ackOut (env : Env) : Accrues s (ackOut env t) := by
  have hsend := h.sends ((Sends.refl t).sendCopy env .ack t.peer.dest (ackDatagram env t))
  unfold Udx.ackOut
  dsimp only
  split
  · have hended : Accrues s (setEndedRemote (sendCopy env .ack t.peer.dest (ackDatagram env t) t)) :=
      hsend.still id rfl rfl
    exact hended.announce _ _
  · exact hsend

theorem closeUnlessDestroying (env : Env) (err : CloseErr) :
    Accrues s (closeUnlessDestroying env err t) := by
  have hdrop : Accrues s (dropTimewaitOnError err t) := by
    unfold dropTimewaitOnError
    split
    · exact h.still id rfl rfl
    · exact h
  unfold Udx.closeUnlessDestroying
  dsimp only
  split
  · exact hdrop
  · exact hdrop.trans (.closeStart env err)

theorem closeEnded (env : Env) : Accrues s (closeEnded env t) := by
  unfold Udx.closeEnded checkEnded
  exact ((h.check _ _).check _ _).closeUnlessDestroying env _

theorem relayGone (env : Env) : Accrues s (relayGone env t) := by
  have hclear : Accrues s (clearRelayTo t) := h.still id rfl rfl
  have hdrop : Accrues s (dropTimewait (clearRelayTo t)) := hclear.still id rfl rfl
  unfold Udx.relayGone
  dsimp only
  split_ifs
  · exact hclear
  · exact hdrop.trans (.closeStart env .none)
  · exact hdrop.trans (.destroyStart env)

theorem changeRemote (socket : Socket) (id : SeqNo) (cb : Bool) :
    Accrues s (changeRemote socket id cb t).1 := by
  obtain ⟨peer, changed, capacity, heq⟩ := changeRemote_eq socket id cb t
  rw [heq]
  exact h.still (fun hd => hd) rfl rfl

/-! ### Writing -/

/-- The flag is set over a queue only. -/
theorem writeResult : Accrues s (writeResult t).1 := by
  unfold Udx.writeResult
  split
  · next hmark => exact h.trans ⟨id, fun _ => Nat.le_refl _, fun _ _ => .inr (Nat.zero_lt_of_lt hmark)⟩
  · exact h

theorem _udxStreamWrite (env : Env) (bufs : List (List UInt8)) (onAck e : Bool) :
    Accrues s (_udxStreamWrite env bufs onAck e t) := by
  have hqueue : Accrues s (t.withTx fun tx => tx.queueWrite bufs onAck e) :=
    h.trans ⟨id, fun _ => queueWrite_queued bufs onAck e t.tx, fun _ => .inl⟩
  have hprobe : Accrues s (queueWrite env bufs onAck e t) := by
    unfold queueWrite probeWindow
    dsimp only
    split
    · exact hqueue.sends (((Sends.refl _).sendProbe env).streamTimerStart _ _)
    · exact hqueue
  unfold Udx._udxStreamWrite
  exact hprobe.sends ((Sends.refl _).sendPackets env)

theorem runCall_plain (env : Env) {c : Call} (hc : c.plain = true) :
    Accrues s (runCall env Hook.quiet c t).1 := by
  cases c with
  | connect socket id addr => cases hc
  | send data onSend => cases hc
  | destroy => cases hc
  | teardown => cases hc
  | changeRemote socket id addr cb =>
    have haddr := h.setRemoteAddr t.peer.socket addr
    simp only [runCall, udxStreamChangeRemote]
    split_ifs
    · exact h
    · exact h
    · exact haddr
    · exact haddr.changeRemote _ _ _
  | relayTo destinationClosed =>
    simp only [runCall, udxStreamRelayTo]
    split <;> exact h.still id rfl rfl
  | setKeepalive ms =>
    simp only [runCall, udxStreamSetKeepalive]
    split <;> exact h.still id rfl rfl
  | setRwndMax size => exact h.still id rfl rfl
  | firewall set => exact h.still id rfl rfl
  | recvStart =>
    simp only [runCall, udxStreamRecvStart]
    split <;> exact h.still id rfl rfl
  | recvStop =>
    simp only [runCall, udxStreamRecvStop]
    split <;> exact h.still id rfl rfl
  | readStart =>
    simp only [runCall, udxStreamReadStart]
    split <;> exact h.still id rfl rfl
  | readStop =>
    simp only [runCall, udxStreamReadStop]
    split <;> exact h.still id rfl rfl
  | writeResume set => exact h.still id rfl rfl
  | write bufs onAck =>
    simp only [runCall, udxStreamWrite]
    split_ifs
    · exact h
    · exact h
    · exact h
    · exact (h._udxStreamWrite env _ _ _).writeResult
  | writeEnd bufs onAck =>
    have hset : Accrues s (setEnding t) := h.still id rfl rfl
    simp only [runCall, udxStreamWriteEnd]
    split_ifs
    · exact h
    · exact h
    all_goals exact (hset._udxStreamWrite env _ _ _).writeResult

/-! ### Datagrams -/

theorem announceRead (data : List UInt8) : Accrues s (announceRead data t) := by
  unfold Udx.announceRead
  split
  · exact h.note _
  · exact h.note _

theorem ackTake (seq : SeqNo) (k : ℕ) (sack : Bool) : Accrues s (ackTake seq k sack t) := by
  have hcore := Stream.check_core .cirbufNull (t.tx.outgoingLive = true) t
  unfold Udx.ackTake
  generalize t.check .cirbufNull (t.tx.outgoingLive = true) = x at hcore
  have hx : Accrues s x := h.still (fun hd => (congrArg (fun c => c.st.dead) hcore).trans hd)
    (congrArg (fun c => c.tx.writesQueuedBytes) hcore :) (congrArg (fun c => c.win.hitHighWatermark) hcore :)
  have hbeside := takeAcked_besideCc seq k sack x
  have hremoved : (x.tx.removeAcked seq k sack).writesQueuedBytes = x.tx.writesQueuedBytes := by
    unfold Tx.removeAcked
    dsimp only
    split_ifs <;> rfl
  refine hx.still (fun hd => (congrArg (fun y => y.st.dead) hbeside :).trans hd) ?_
    (congrArg (fun y => y.win.hitHighWatermark) hbeside :)
  rw [takeAcked_tx]
  exact hremoved

theorem advanceRemoteAcked (p : RxPacket) : Accrues s (advanceRemoteAcked p t) := by
  unfold Udx.advanceRemoteAcked
  dsimp only
  split <;> exact h.still id rfl rfl

theorem bbrPacket (env : Env) (p : RxPacket) (delivered : ℕ) : Accrues s (bbrPacket env p delivered t) := by
  have hrate : ∀ lost, Accrues s (udxRateGen delivered lost t) := by
    intro lost
    obtain ⟨rs, limited, ts, rate, interval, sampled, hgen⟩ := udxRateGen_eq delivered lost t
    rw [hgen]
    exact h.still id rfl rfl
  unfold Udx.bbrPacket
  dsimp only
  split
  · exact (hrate _).sends ((Sends.refl _).bbrMain env _)
  · exact h

theorem rtoStart : Accrues s (rtoStart t) := by
  have hnone : Accrues s (t.withTm fun tm => { tm with pendingTimer := .none }) := h.still id rfl rfl
  have hout : Accrues s (((t.withTm fun tm => { tm with pendingTimer := .none }).check .rtoConnected
      (t.st.connected = true)).check .rtoOutstanding (t.tx.remoteAcked ≠ t.tx.seq)) :=
    (hnone.check _ _).check _ _
  unfold Udx.rtoStart
  dsimp only
  rw [Stream.check_tx, show (t.withTm fun tm => { tm with pendingTimer := .none }).tx = t.tx from rfl,
    show (t.withTm fun tm => { tm with pendingTimer := .none }).st = t.st from rfl]
  generalize ((t.withTm fun tm => { tm with pendingTimer := .none }).check .rtoConnected
      (t.st.connected = true)).check .rtoOutstanding (t.tx.remoteAcked ≠ t.tx.seq) = x at hout ⊢
  have henter : Accrues s (rtoEnterLoss x) := by
    unfold rtoEnterLoss
    exact Accrues.still (hout.sends (Sends.refl x).bbrSaveCwnd) id rfl rfl
  have hback : ∀ {y : Stream}, Accrues s y → Accrues s (rtoBackOff y) := by
    intro y hy
    have hcount : Accrues s (y.withTm fun tm => { tm with rtoCount := (tm.rtoCount + 1) % 2 ^ 8 }) :=
      hy.still id rfl rfl
    unfold rtoBackOff
    exact (hcount.check _ _).sends ((Sends.refl _).streamTimerStart _ _)
  exact (hback henter).still id rfl rfl

theorem rtoResend (env : Env) : Accrues s (rtoResend env t) := by
  have hloop := rtoLoop_sends (rackUpdateReoWnd t) (t.tx.seq - t.tx.remoteAcked).toNat t.tx.remoteAcked
    (Sends.refl t)
  have hlooped := h.sends hloop
  unfold Udx.rtoResend
  dsimp only
  generalize rtoLoop (rackUpdateReoWnd t) (t.tx.seq - t.tx.remoteAcked).toNat t.tx.remoteAcked t = x
    at hlooped ⊢
  have hcwnd : Accrues s (bbrOnRto (x.withCc fun cc => { cc with cwnd := x.tx.inflightQueue.length + 1 })) :=
    hlooped.still id rfl rfl
  exact hcwnd.sends ((Sends.refl _).sendPackets env)

end

/-! ### Events -/

/-- The stream timer, where its expiry does not call back. -/
theorem fireTimer (env : Env) (hq : Event.quiet t .timer = true) : Accrues t (fireTimer env Hook.quiet t) := by
  unfold Udx.fireTimer
  cases htimer : t.tm.timer with
  | none => exact refl t
  | some x =>
    obtain ⟨timer, due⟩ := x
    have hclear : Accrues t (clearTimer t) := (refl t).still id rfl rfl
    dsimp only
    split
    · exact refl t
    next hdue =>
    cases timer with
    | none => exact hclear
    | rto =>
      have hcount : (t.tm.rtoCount + 1) % 2 ^ 8 ≤ UDX_MAX_RTO_TIMEOUTS := by
        simp only [Event.quiet, htimer, Bool.or_eq_true, decide_eq_true_eq] at hq
        exact hq.resolve_left hdue
      simp only [runTimer]
      rw [udxRtoTimeout_quiet (s := clearTimer t) hcount]
      exact (hclear.rtoStart).rtoResend env
    | rackReo => exact hclear.sends ((Sends.refl _).udxRackReoTimeout env)
    | tlp => exact hclear.sends ((Sends.refl _).udxTlpTimeout env)
    | zwp => exact hclear.sends ((Sends.refl _).udxZwpTimeout env)
    | keepalive => exact hclear.sends ((Sends.refl _).udxKeepaliveTimeout env)

/-- One case for each event that calls nothing back. -/
theorem runEvent_quiet (env : Env) {e : Event} (hq : e.quiet t = true) :
    Accrues t (runEvent env Hook.quiet e t) := by
  have ht : Accrues t t := refl t
  cases e with
  | call c => cases hq
  | recv d same => cases hq
  | relayClosed => cases hq
  | timer => exact fireTimer env hq
  | pacing =>
    simp only [runEvent, firePacing]
    have hclear : Accrues t (clearPacing t) := ht.still id rfl rfl
    split
    · exact ht
    · split
      · exact ht
      · exact hclear.sends ((Sends.refl _).pacingTimerTimeout env)
  | prepare =>
    simp only [runEvent, firePrepare]
    split
    · exact ht.sends ((Sends.refl _)._sendNewPacket env false)
    · exact ht
  | uvSent i =>
    simp only [runEvent, uvSent]
    split
    · exact ht
    · split
      · exact ht
      · exact ht.still id rfl rfl
  | uvDone i =>
    simp only [runEvent, uvDone]
    split
    · exact ht
    · exact ht.still id rfl rfl
  | copySent i =>
    simp only [runEvent, copySent]
    split
    · exact ht
    · split
      · exact ht
      · exact ht.still id rfl rfl
  | copyDone i =>
    have hdrop : Accrues t (dropCopy i t) := ht.still id rfl rfl
    simp only [runEvent, copyDone]
    simp only [Event.quiet] at hq
    split
    · exact ht
    next u hu =>
    rw [hu] at hq
    cases hk : u.kind with
    | destroy => simp [hk] at hq
    | message onSend =>
      cases onSend with
      | true => simp [hk] at hq
      | false => exact hdrop
    | _ => exact hdrop
  | tick ms => exact ht.still id rfl rfl
  | timewaitTimeout =>
    simp only [runEvent, timewaitTimeout]
    split
    · exact ht
    · split
      · exact ht
      · exact ht.still id rfl rfl

end Accrues

/-! ### Moves -/

variable {env : Env}

theorem PlainMove.accrues {s t : Stream} (h : PlainMove env s t) : Accrues s t := by
  have hs : Accrues s s := .refl s
  cases h with
  | call c _ hc =>
    have hrun := (hs.note (.call c s.toCore)).runCall_plain env hc
    unfold Udx.call
    exact hrun.note _
  | enter => exact hs.note _
  | result => exact hs.note _
  | returned => exact hs.note _
  | teardown => exact hs.still id rfl rfl

/-- What only a closed stream does. -/
theorem CallMove.accrues_closed {s t : Stream} (h : CallMove env s t) (hclosed : s.st.closed = true) :
    Accrues s t :=
  .of_dead (h.keeps.dead (by simp [Status.dead, hclosed]))

theorem CallMove.accrues {s t : Stream} (h : CallMove env s t) : Accrues s t := by
  have hs : Accrues s s := .refl s
  have hmove := h
  cases h with
  | plain hm => exact hm.accrues
  | bind socket id addr => exact (hs.note (.call (.connect socket id addr) s.toCore)).connectBind env socket id addr
  | keepalive => exact hs.connectKeepalive
  | message data onSend =>
    unfold messageSend
    exact (hs.sends ((Sends.refl s).sendCopy env _ _ _)).announce _ _
  | deferAck => exact hs.still id rfl rfl
  | ackOut => exact hs.ackOut env
  | closeEnded => exact hs.closeEnded env
  | dropTimewait => exact hs.still id rfl rfl
  | destroyStart => exact .destroyStart env
  | close err => exact .closeStart env err
  | cancelPkt _ hclosed => exact hmove.accrues_closed hclosed
  | cancelSeq _ _ _ hclosed => exact hmove.accrues_closed hclosed
  | cancelChunk _ _ _ hclosed => exact hmove.accrues_closed hclosed
  | cancelDone _ _ hclosed => exact hmove.accrues_closed hclosed
  | cancelQueued _ _ _ hclosed => exact hmove.accrues_closed hclosed
  | release _ hclosed => exact hmove.accrues_closed hclosed

theorem CallPath.accrues {s t : Stream} (h : CallPath env s t) : Accrues s t := by
  induction h with
  | refl s => exact .refl s
  | tail _ hm ih => exact ih.trans hm.accrues
  | @connecting s t u _ _ ih ih' =>
    have hopen : Accrues s (setConnecting true t) := ih.still id rfl rfl
    exact Accrues.still (hopen.trans ih') id rfl rfl

theorem LoopMove.accrues {s t : Stream} (h : LoopMove env s t) : Accrues s t := by
  have hs : Accrues s s := .refl s
  cases h with
  | quiet e _ he =>
    have hbegin : Accrues s (beginEvent e s) := hs.still id rfl rfl
    have hrun : Accrues (beginEvent e s) (runEvent env Hook.quiet e (beginEvent e s)) :=
      .runEvent_quiet env ((beginEvent_quiet e e s).trans he)
    exact Accrues.still (hbegin.trans hrun) id rfl rfl
  | begin e => exact hs.still id rfl rfl
  | finish => exact hs.still id rfl rfl
  | asked => exact hs.still id rfl rfl
  | callback => exact hs.note _
  | giveUp =>
    have hclear : Accrues s (clearTimer s) := hs.still id rfl rfl
    unfold rtoGiveUp
    exact hclear.rtoStart.closeUnlessDestroying env _
  | copyGone => exact hs.still id rfl rfl
  | destroySent i =>
    have hdrop : Accrues s (dropCopy i s) := hs.still id rfl rfl
    exact hdrop.trans (.closeStart env _)
  | relayGone => exact hs.relayGone env
  | relay seq => exact hs.still id rfl rfl
  | timewait type =>
    unfold processTimewait
    split
    · split
      · exact hs.sends ((Sends.refl s).sendCopy env _ _ _)
      · exact hs
    · exact hs

theorem RecvMove.accrues {s t : Stream} (h : RecvMove s t) : Accrues s t := by
  have hs : Accrues s s := .refl s
  cases h with
  | packet => exact hs.still id rfl rfl
  | take p =>
    have htake : Accrues s (takeNext (noteAccept p.h.type p.h.seq p.data s)) := hs.still id rfl rfl
    exact htake.announceRead p.data
  | hold p =>
    unfold holdPacket
    split
    · exact hs
    · exact hs.still id rfl rfl
  | endBit => exact hs.still id rfl rfl
  | message => exact hs.note _
  | drainStart => exact hs.still id rfl rfl
  | drainTake b rest =>
    have htake : Accrues s (takeNext (setDraining rest s)) := hs.still id rfl rfl
    unfold Udx.drainTake
    dsimp only
    split
    · exact htake.announceRead b.data
    · exact htake

/-! ### Acknowledging -/

/-- The next slice is acknowledged with the flag set, at a threshold that wraps. -/
def Stream.wraps (s : Stream) : Bool :=
  !s.st.dead && s.win.hitHighWatermark && !s.ctl.acking.isEmpty && s.ctl.ackDue.isNone &&
    decide (2 ^ 32 ≤ UDX_HIGH_WATERMARK + sendWindowInBytes s)

theorem ackBytes_window (c : Chunk) (rest : List Chunk) (s : Stream) :
    sendWindowInBytes (ackBytes c rest s) = sendWindowInBytes s := by
  have hcore := ackBytes_core c rest s
  have hcc : (ackBytes c rest s).cc = s.cc := (congrArg Core.cc hcore :)
  have hmtu : (ackBytes c rest s).mtu = s.mtu := (congrArg Core.mtu hcore :)
  have hpeer : (ackBytes c rest s).peer = s.peer := (congrArg Core.peer hcore :)
  have hwin : (ackBytes c rest s).win = s.win := (congrArg Core.win hcore :)
  unfold sendWindowInBytes cwndInBytes udxMaxPayload
  rw [hcc, hmtu, hpeer, hwin]

theorem ackBytes_queued (c : Chunk) (rest : List Chunk) (s : Stream) :
    (ackBytes c rest s).tx.writesQueuedBytes = s.tx.writesQueuedBytes - c.len :=
  (congrArg (fun x => x.tx.writesQueuedBytes) (ackBytes_core c rest s) :)

/-- A threshold that does not wrap is the watermark and the window. -/
theorem drainDue_unwrapped {c : Chunk} {rest : List Chunk} {s : Stream} (hdead : s.st.dead = false)
    (hacking : s.ctl.acking = c :: rest) (hdue : s.ctl.ackDue = none) (hwraps : s.wraps = false)
    (hflag : s.win.hitHighWatermark = true) :
    drainDue (ackBytes c rest s) =
      decide (s.tx.writesQueuedBytes - c.len < UDX_HIGH_WATERMARK + sendWindowInBytes s) := by
  have hwin : (ackBytes c rest s).win = s.win := (congrArg Core.win (ackBytes_core c rest s) :)
  have hfit : UDX_HIGH_WATERMARK + sendWindowInBytes s < 2 ^ 32 := by
    simp only [Stream.wraps, hdead, hflag, hacking, hdue, List.isEmpty_cons, Option.isNone_none,
      Bool.not_false, Bool.and_true, Bool.true_and, decide_eq_false_iff_not, Nat.not_le] at hwraps
    exact hwraps
  unfold drainDue
  rw [ackBytes_queued, ackBytes_window, hwin, hflag, Bool.true_and, add32, Nat.mod_eq_of_lt hfit]

/-- The slice that takes the queue below the threshold clears the flag and
calls back. -/
theorem chunkStage_drains {c : Chunk} {rest : List Chunk} {s : Stream}
    (hdue : drainDue (ackBytes c rest s) = true) :
    (chunkStage c rest s).win.hitHighWatermark = false ∧
      (s.handlers.onDrain = true → ∃ l, (chunkStage c rest s).log = .callback .drain :: l) := by
  have hhandlers : (ackBytes c rest s).handlers = s.handlers :=
    (congrArg Core.handlers (ackBytes_core c rest s) :)
  unfold chunkStage Stream.announce
  dsimp only
  rw [if_pos hdue, hhandlers]
  refine ⟨?_, fun hon => ?_⟩
  · split <;> rfl
  · rw [if_pos hon]
    exact ⟨_, rfl⟩

/-- The flag is set over a queue only. -/
def Waiting (s : Stream) : Prop :=
  s.st.dead = false → s.win.hitHighWatermark = true → 0 < s.tx.writesQueuedBytes

theorem Accrues.waiting {s t : Stream} (h : Accrues s t) (hs : Waiting s) : Waiting t := by
  intro hlive hflag
  have hsource : s.st.dead = false := by
    cases hd : s.st.dead
    · rfl
    · rw [h.dead hd] at hlive
      cases hlive
  rcases h.flag hlive hflag with hold | hpos
  · exact Nat.lt_of_lt_of_le (hs hsource hold) (h.queued hlive)
  · exact hpos

theorem chunkStage_still (c : Chunk) (rest : List Chunk) (s : Stream) :
    (chunkStage c rest s).st = s.st ∧
      (chunkStage c rest s).tx.writesQueuedBytes = s.tx.writesQueuedBytes - c.len := by
  have hst : (ackBytes c rest s).st = s.st := (congrArg Core.st (ackBytes_core c rest s) :)
  have hq := ackBytes_queued c rest s
  unfold chunkStage Stream.announce
  dsimp only
  split
  · split <;> exact ⟨hst, hq⟩
  · exact ⟨hst, hq⟩

/-- A slice that leaves the flag leaves a queue. -/
theorem chunkStage_waiting {c : Chunk} {rest : List Chunk} {s : Stream}
    (hacking : s.ctl.acking = c :: rest) (hdue : s.ctl.ackDue = none) (hwraps : s.wraps = false) :
    Waiting (chunkStage c rest s) := by
  obtain ⟨hst, hq⟩ := chunkStage_still c rest s
  intro hlive hflag
  rw [hst] at hlive
  have hkept : drainDue (ackBytes c rest s) = false := by
    cases hd : drainDue (ackBytes c rest s)
    · rfl
    · rw [(chunkStage_drains hd).1] at hflag
      cases hflag
  have hset : s.win.hitHighWatermark = true := by
    unfold chunkStage at hflag
    dsimp only at hflag
    rw [if_neg (by rw [hkept]; exact Bool.false_ne_true)] at hflag
    rw [← hflag, show (ackBytes c rest s).win = s.win from (congrArg Core.win (ackBytes_core c rest s) :)]
  rw [drainDue_unwrapped hlive hacking hdue hwraps hset, decide_eq_false_iff_not] at hkept
  have hmark : 0 < UDX_HIGH_WATERMARK := by decide
  omega

theorem AckMove.accrues {s t : Stream} (h : AckMove env s t)
    (hchunk : ∀ c rest, s.ctl.acking = c :: rest → s.ctl.ackDue = none → t ≠ chunkStage c rest s) :
    Accrues s t := by
  have hs : Accrues s s := .refl s
  cases h with
  | window p =>
    have hwin : Accrues s (updateSendWindow p.h (setProcessing true s)) := by
      unfold updateSendWindow stopZwp
      split_ifs <;> exact hs.still id rfl rfl
    unfold windowStage
    dsimp only
    split
    · have hchanged : Accrues s (remoteChanged (updateSendWindow p.h (setProcessing true s))) :=
        hwin.still id rfl rfl
      exact hchanged.announce _ _
    · exact hwin
  | ackInit p => exact hs.still id rfl rfl
  | ackAbsent p c =>
    have hnext : Accrues s (setCursor (some (c + 1)) s) := hs.still id rfl rfl
    exact (hnext.check .cirbufNull _).still id rfl rfl
  | sackAbsent c => exact hs.check .cirbufNull _
  | ackTake p c k =>
    have hnext : Accrues s (setCursor (some (c + 1)) s) := hs.still id rfl rfl
    exact hnext.ackTake c k false
  | sackTake c k => exact hs.ackTake c k true
  | sackDead c k x rest _ _ _ hdead =>
    have htake : (Udx.ackTake c k true s).st.dead = true := (hs.ackTake c k true).dead hdead
    exact .of_dead (by rw [(chunkStage_still x rest _).1]; exact htake)
  | chunk c rest _ hc hdue => exact absurd rfl (hchunk c rest hc hdue)
  | complete b sack =>
    have hclear : Accrues s (clearAckDue s) := hs.still id rfl rfl
    exact hclear.announce _ _
  | ackDone k =>
    unfold Udx.ackDone ackEnd
    split
    · exact hs.still id rfl rfl
    · exact hs.still id rfl rfl
  | ackDrop => exact hs.still id rfl rfl
  | advance p => exact hs.advanceRemoteAcked p
  | advanceAll p =>
    have hset : Accrues s (setSacksLeft [] (advanceRemoteAcked p s)) :=
      (hs.advanceRemoteAcked p).still id rfl rfl
    exact hset.sends ((Sends.refl _).settleAcks env p _)
  | advanceEnded p => exact (hs.advanceRemoteAcked p).sends (Sends.refl _).timerEnded
  | advanceDead p => exact hs.advanceRemoteAcked p
  | sackNext => exact hs.still id rfl rfl
  | settle p => exact hs.sends ((Sends.refl s).settleAcks env p _)
  | finishPacket p delivered =>
    have hsend := (hs.bbrPacket env p delivered).sends ((Sends.refl _).sendPackets env)
    unfold Udx.finishPacket
    generalize sendPackets env (bbrPacket env p delivered s) = x at hsend ⊢
    exact hsend.still id rfl rfl

/-- The step: one slice, or something that takes nothing off the queue. -/
theorem Move.waiting {s t : Stream} (h : Move env s t) (hwraps : s.wraps = false) (hs : Waiting s) :
    Waiting t := by
  cases h with
  | loop h => exact h.accrues.waiting hs
  | recv h => exact h.accrues.waiting hs
  | ack h =>
    by_cases hchunk : ∃ c rest, s.ctl.acking = c :: rest ∧ s.ctl.ackDue = none ∧ t = chunkStage c rest s
    · obtain ⟨c, rest, hacking, hdue, rfl⟩ := hchunk
      exact chunkStage_waiting hacking hdue hwraps
    · exact (h.accrues fun c rest hacking hdue ht => hchunk ⟨c, rest, hacking, hdue, ht⟩).waiting hs

/-! ### Runs -/

/-- Every run is a path of moves and calls. -/
theorem Reach.path {cfg : Config} {s : Stream} (h : Reach env cfg s) :
    Path env (Move env) (Udx.init env cfg) s :=
  h.preserves (I := Path env (Move env) (Udx.init env cfg)) (.refl _) (fun hm hs => hs.move hm)
    fun hp hs => hs.call hp

end Udx
