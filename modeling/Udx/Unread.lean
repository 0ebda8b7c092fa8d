/-
# Steps that take nothing from the peer

What the peer sent is taken in by the read path alone: no API call, timer or
acknowledgement changes what was taken or what is held, or passes a payload to
`on_read`.

Key definitions: `Stream.reads`, `Unread`.
Key theorems: `CallPath.unread`, `AckMove.unread`, `step_unread`.
-/
import Udx.Loads
import Udx.Tuning

namespace Udx

open Serial

/-- The payload that a callback was given. -/
def Entry.read? : Entry → Option (List UInt8)
  | .callback (.read data) => some data
  | _ => none

/-- The payloads passed to `on_read`, oldest first. -/
def Stream.reads (s : Stream) : List (List UInt8) := s.log.reverse.filterMap Entry.read?

theorem Stream.reads_note (e : Entry) (s : Stream) : (s.note e).reads = s.reads ++ e.read?.toList := by
  unfold Stream.reads Stream.note
  rw [List.reverse_cons, List.filterMap_append]
  cases h : e.read? <;> simp [h]

theorem Stream.reads_of_log {s t : Stream} (h : t.log = s.log) : t.reads = s.reads := by
  unfold Stream.reads
  rw [h]

theorem Entry.read?_of_sending {e : Entry} (h : e.sending = true) : e.read? = none := by
  cases e <;> first | rfl | cases h

theorem Sends.reads {s t : Stream} (h : Sends s t) : t.reads = s.reads := by
  obtain ⟨l, hl, hsend⟩ := h.log
  have hnone : l.reverse.filterMap Entry.read? = [] :=
    List.filterMap_eq_nil_iff.mpr fun e he => Entry.read?_of_sending (hsend e (List.mem_reverse.mp he))
  unfold Stream.reads
  rw [hl, List.reverse_append, List.filterMap_append, hnone, List.append_nil]

/-- What the receive side has taken and holds. -/
def Rx.intake (r : Rx) : SeqNo × ℕ × List SackBlock := (r.ack, r.taken, r.sackTree)

/-- A step that takes nothing from the peer; only a dead stream drops what it
holds. -/
structure Unread (s t : Stream) : Prop where
  dead : s.st.dead = true → t.st.dead = true
  ack : t.rx.ack = s.rx.ack
  taken : t.rx.taken = s.rx.taken
  sackTree : t.st.dead = false → t.rx.sackTree = s.rx.sackTree
  reads : t.reads = s.reads

namespace Unread

variable {s t u : Stream}

theorem refl (s : Stream) : Unread s s := ⟨id, rfl, rfl, fun _ => rfl, rfl⟩

theorem trans (h : Unread s t) (h' : Unread t u) : Unread s u := by
  have hlive : u.st.dead = false → t.st.dead = false := by
    intro hu
    cases ht : t.st.dead
    · rfl
    · rw [h'.dead ht] at hu
      cases hu
  exact ⟨h'.dead ∘ h.dead, h'.ack.trans h.ack, h'.taken.trans h.taken,
    fun hu => (h'.sackTree hu).trans (h.sackTree (hlive hu)), h'.reads.trans h.reads⟩

section

variable (h : Unread s t)
include h

/-- The intake and the log are left alone. -/
theorem still (hd : t.st.dead = true → u.st.dead = true) (hrx : u.rx.intake = t.rx.intake)
    (hl : u.log = t.log) : Unread s u :=
  h.trans ⟨hd, congrArg Prod.fst hrx, congrArg (fun x => x.2.1) hrx, fun _ => congrArg (fun x => x.2.2) hrx,
    Stream.reads_of_log hl⟩

theorem sends (h' : Sends t u) : Unread s u :=
  h.trans ⟨fun hd => h'.st ▸ hd, congrArg Rx.ack h'.rx, congrArg Rx.taken h'.rx,
    fun _ => congrArg Rx.sackTree h'.rx, h'.reads⟩

theorem note {e : Entry} (he : e.read? = none) : Unread s (t.note e) :=
  h.trans ⟨id, rfl, rfl, fun _ => rfl, by rw [Stream.reads_note, he, Option.toList_none, List.append_nil]⟩

theorem check (a : Site) (p : Prop) [Decidable p] : Unread s (t.check a p) :=
  h.sends ((Sends.refl t).check a p)

theorem announce (on : Bool) {c : Callback} (hc : (Entry.callback c).read? = none) :
    Unread s (t.announce on c) := by
  unfold Stream.announce
  split
  · exact h.note hc
  · exact h

/-! ### Closing -/

theorem markDead : Unread s (markDead t) := by
  unfold Udx.markDead
  split
  · exact h
  · exact h.note rfl

theorem closeStart (env : Env) (err : CloseErr) : Unread s (closeStart env err t) := by
  have hmark : Unread s (Udx.markDead (t.check .closeTwice (t.st.closed = false))) :=
    (h.check _ _).markDead
  have hset : Unread s (setClosed (Udx.markDead (t.check .closeTwice (t.st.closed = false)))) :=
    hmark.still (fun _ => Bool.or_true _) rfl rfl
  unfold Udx.closeStart closeBegin
  dsimp only
  split
  · have hwait := hset.still (u := streamTimewait env (setClosed (Udx.markDead
      (t.check .closeTwice (t.st.closed = false))))) (fun hd => hd) rfl rfl
    exact hwait.announce _ rfl
  · exact hset.announce _ rfl

theorem destroyStart (env : Env) : Unread s (destroyStart env t) := by
  have hset : Unread s (setDestroying t) :=
    h.markDead.still (fun _ => Bool.true_or _) rfl rfl
  have hreach : Unread s ((setDestroying t).note (.reached .destroySend (setDestroying t).toCore)) :=
    hset.note rfl
  have hseq : Unread s (((setDestroying t).note (.reached .destroySend (setDestroying t).toCore)).withTx
      Tx.advanceSeq) := hreach.still id rfl rfl
  unfold Udx.destroyStart
  dsimp only
  split
  · exact hset.closeStart env _
  · unfold destroySend queueCopy
    exact hseq.sends ((Sends.refl _).sendCopy env _ _ _)

/-! ### Calls -/

theorem setRemoteAddr (socket : Option Socket) (addr : SockAddr) :
    Unread s (setRemoteAddr socket addr t).1 := by
  unfold Udx.setRemoteAddr
  dsimp only
  split_ifs <;> exact h.still id rfl rfl

theorem connectBind (env : Env) (socket : Socket) (id : SeqNo) (addr : SockAddr) :
    Unread s (connectBind env socket id addr t).1 := by
  have hconn : Unread s ((t.withSt fun st => { st with connected := true }).withPeer fun peer =>
      { peer with remoteId := id, socket := some socket }) := h.still (fun hd => hd) rfl rfl
  have haddr := hconn.setRemoteAddr (some socket) addr
  unfold Udx.connectBind
  dsimp only
  split
  · exact haddr.still (fun hd => hd) rfl rfl
  · exact haddr

theorem connectKeepalive : Unread s (connectKeepalive t) := by
  have hnote : Unread s (t.note (.reached .connectKeepalive t.toCore)) := h.note rfl
  unfold Udx.connectKeepalive
  dsimp only
  split
  · exact hnote.sends ((Sends.refl _).streamTimerStart _ _)
  · exact hnote

theorem ackOut (env : Env) : Unread s (ackOut env t) := by
  have hsend := h.sends ((Sends.refl t).sendCopy env .ack t.peer.dest (ackDatagram env t))
  unfold Udx.ackOut
  dsimp only
  split
  · have hended : Unread s (setEndedRemote (sendCopy env .ack t.peer.dest (ackDatagram env t) t)) :=
      hsend.still id rfl rfl
    exact hended.announce _ rfl
  · exact hsend

theorem closeUnlessDestroying (env : Env) (err : CloseErr) :
    Unread s (closeUnlessDestroying env err t) := by
  have hdrop : Unread s (dropTimewaitOnError err t) := by
    unfold dropTimewaitOnError
    split
    · exact h.still id rfl rfl
    · exact h
  unfold Udx.closeUnlessDestroying
  dsimp only
  split
  · exact hdrop
  · exact hdrop.closeStart env err

theorem closeEnded (env : Env) : Unread s (closeEnded env t) := by
  unfold Udx.closeEnded checkEnded
  exact ((h.check _ _).check _ _).closeUnlessDestroying env _

theorem relayGone (env : Env) : Unread s (relayGone env t) := by
  have hclear : Unread s (clearRelayTo t) := h.still id rfl rfl
  have hdrop : Unread s (dropTimewait (clearRelayTo t)) := hclear.still id rfl rfl
  unfold Udx.relayGone
  dsimp only
  split_ifs
  · exact hclear
  · exact hdrop.closeStart env .none
  · exact hdrop.destroyStart env

theorem changeRemote (socket : Socket) (id : SeqNo) (cb : Bool) :
    Unread s (changeRemote socket id cb t).1 := by
  obtain ⟨peer, changed, capacity, heq⟩ := changeRemote_eq socket id cb t
  rw [heq]
  exact h.still (fun hd => hd) rfl rfl

/-! ### Writing -/

theorem writeResult : Unread s (writeResult t).1 := by
  unfold Udx.writeResult
  split
  · exact h.still id rfl rfl
  · exact h

theorem _udxStreamWrite (env : Env) (bufs : List (List UInt8)) (onAck e : Bool) :
    Unread s (_udxStreamWrite env bufs onAck e t) := by
  have hqueue : Unread s (t.withTx fun tx => tx.queueWrite bufs onAck e) :=
    h.still id rfl rfl
  have hprobe : Unread s (queueWrite env bufs onAck e t) := by
    unfold queueWrite probeWindow
    dsimp only
    split
    · exact hqueue.sends (((Sends.refl _).sendProbe env).streamTimerStart _ _)
    · exact hqueue
  unfold Udx._udxStreamWrite
  exact hprobe.sends ((Sends.refl _).sendPackets env)

theorem runCall_plain (env : Env) {c : Call} (hc : c.plain = true) :
    Unread s (runCall env Hook.quiet c t).1 := by
  cases c with
  | connect socket id addr => cases hc
  | send data onSend => cases hc
  | destroy => cases hc
  | teardown => cases hc
  | changeRemote socket id addr cb =>
    have haddr := h.setRemoteAddr t.peer.socket addr
    simp only [runCall, udxStreamChangeRemote]
    split_ifs
    · exact h
    · exact h
    · exact haddr
    · exact haddr.changeRemote _ _ _
  | relayTo destinationClosed =>
    simp only [runCall, udxStreamRelayTo]
    split <;> exact h.still id rfl rfl
  | setKeepalive ms =>
    simp only [runCall, udxStreamSetKeepalive]
    split <;> exact h.still id rfl rfl
  | setRwndMax size => exact h.still id rfl rfl
  | firewall set => exact h.still id rfl rfl
  | recvStart =>
    simp only [runCall, udxStreamRecvStart]
    split <;> exact h.still id rfl rfl
  | recvStop =>
    simp only [runCall, udxStreamRecvStop]
    split <;> exact h.still id rfl rfl
  | readStart =>
    simp only [runCall, udxStreamReadStart]
    split <;> exact h.still id rfl rfl
  | readStop =>
    simp only [runCall, udxStreamReadStop]
    split <;> exact h.still id rfl rfl
  | writeResume set => exact h.still id rfl rfl
  | write bufs onAck =>
    simp only [runCall, udxStreamWrite]
    split_ifs
    · exact h
    · exact h
    · exact h
    · exact (h._udxStreamWrite env _ _ _).writeResult
  | writeEnd bufs onAck =>
    have hset : Unread s (setEnding t) := h.still id rfl rfl
    simp only [runCall, udxStreamWriteEnd]
    split_ifs
    · exact h
    · exact h
    all_goals exact (hset._udxStreamWrite env _ _ _).writeResult

/-! ### Datagrams -/

theorem countBytes (b bytes : ℕ) (cancelled : Bool) : Unread s (countBytes b bytes cancelled t) := by
  have hcheck : Unread s (checkBytes b bytes cancelled t) := by
    unfold checkBytes
    dsimp only
    split
    · exact ((h.check _ _).check _ _).check _ _
    · exact (((h.check _ _).check _ _).check _ _).check _ _
  unfold Udx.countBytes
  exact hcheck.still id rfl rfl

theorem ackTake (seq : SeqNo) (k : ℕ) (sack : Bool) : Unread s (ackTake seq k sack t) := by
  have hcheck := h.check .cirbufNull (t.tx.outgoingLive = true)
  unfold Udx.ackTake
  generalize t.check .cirbufNull (t.tx.outgoingLive = true) = x at hcheck ⊢
  have hreach : Unread s (x.note (.reached (.ackTake k) x.toCore)) := hcheck.note rfl
  exact hreach.still (fun hd => (congrArg Status.dead (takeAcked_st seq k sack x)).trans hd)
    (congrArg Rx.intake (takeAcked_rx seq k sack x)) (takeAcked_log seq k sack x)

/-- One slice of an acknowledged packet. -/
theorem chunkStage (c : Chunk) (rest : List Chunk) : Unread s (chunkStage c rest t) := by
  have hbytes : Unread s (ackBytes c rest t) := by
    have hacked : Unread s (setAcking rest (some c.wbuf)
        (t.withTx fun tx => { tx with bytesAcked := tx.bytesAcked + c.len })) := h.still id rfl rfl
    exact hacked.countBytes _ _ _
  unfold Udx.chunkStage
  dsimp only
  split
  · have hclear : Unread s (clearHighWatermark (ackBytes c rest t)) := hbytes.still id rfl rfl
    exact hclear.announce _ rfl
  · exact hbytes

/-! ### Cancelling -/

/-- The completion of a write that is given up. -/
theorem announceCancel (b : ℕ) : Unread s (announceCancel b t) := h.announce _ rfl

theorem releaseHandles (hclosed : t.st.closed = true) : Unread s (releaseHandles t) := by
  have hread : Unread t (Udx.releaseHandles t) := by
    have hdead : (Udx.releaseHandles t).st.dead = true := by
      unfold Udx.releaseHandles udxStreamReadStop
      split <;> exact (congrArg (t.st.destroying || ·) hclosed).trans (Bool.or_true _)
    refine ⟨fun _ => hdead, ?_, ?_, fun hlive => by simp [hdead] at hlive, ?_⟩
    all_goals
      unfold Udx.releaseHandles udxStreamReadStop
      split <;> rfl
  exact h.trans hread

theorem advanceRemoteAcked (p : RxPacket) : Unread s (advanceRemoteAcked p t) := by
  unfold Udx.advanceRemoteAcked
  dsimp only
  split <;> exact h.still id rfl rfl

theorem bbrPacket (env : Env) (p : RxPacket) (delivered : ℕ) : Unread s (bbrPacket env p delivered t) := by
  have hrate : ∀ lost, Unread s (udxRateGen delivered lost t) := by
    intro lost
    obtain ⟨rs, limited, ts, rate, interval, sampled, hgen⟩ := udxRateGen_eq delivered lost t
    rw [hgen]
    exact h.still id rfl rfl
  unfold Udx.bbrPacket
  dsimp only
  split
  · exact (hrate _).sends ((Sends.refl _).bbrMain env _)
  · exact h

theorem rtoStart : Unread s (rtoStart t) := by
  have hnone : Unread s (t.withTm fun tm => { tm with pendingTimer := .none }) := h.still id rfl rfl
  have hout : Unread s (((t.withTm fun tm => { tm with pendingTimer := .none }).check .rtoConnected
      (t.st.connected = true)).check .rtoOutstanding (t.tx.remoteAcked ≠ t.tx.seq)) :=
    (hnone.check _ _).check _ _
  unfold Udx.rtoStart
  dsimp only
  rw [Stream.check_tx, show (t.withTm fun tm => { tm with pendingTimer := .none }).tx = t.tx from rfl,
    show (t.withTm fun tm => { tm with pendingTimer := .none }).st = t.st from rfl]
  generalize ((t.withTm fun tm => { tm with pendingTimer := .none }).check .rtoConnected
      (t.st.connected = true)).check .rtoOutstanding (t.tx.remoteAcked ≠ t.tx.seq) = x at hout ⊢
  have henter : Unread s (rtoEnterLoss x) := by
    unfold rtoEnterLoss
    exact Unread.still (hout.sends (Sends.refl x).bbrSaveCwnd) id rfl rfl
  have hback : ∀ {y : Stream}, Unread s y → Unread s (rtoBackOff y) := by
    intro y hy
    have hcount : Unread s (y.withTm fun tm => { tm with rtoCount := (tm.rtoCount + 1) % 2 ^ 8 }) :=
      hy.still id rfl rfl
    unfold rtoBackOff
    exact (hcount.check _ _).sends ((Sends.refl _).streamTimerStart _ _)
  exact (hback henter).still id rfl rfl

theorem rtoResend (env : Env) : Unread s (rtoResend env t) := by
  have hloop := rtoLoop_sends (rackUpdateReoWnd t) (t.tx.seq - t.tx.remoteAcked).toNat t.tx.remoteAcked
    (Sends.refl t)
  have hlooped := h.sends hloop
  unfold Udx.rtoResend
  dsimp only
  generalize rtoLoop (rackUpdateReoWnd t) (t.tx.seq - t.tx.remoteAcked).toNat t.tx.remoteAcked t = x
    at hlooped ⊢
  have hcwnd : Unread s (bbrOnRto (x.withCc fun cc => { cc with cwnd := x.tx.inflightQueue.length + 1 })) :=
    hlooped.still id rfl rfl
  exact hcwnd.sends ((Sends.refl _).sendPackets env)

end

/-! ### Events -/

/-- The stream timer, where its expiry does not call back. -/
theorem fireTimer (env : Env) (hq : Event.quiet t .timer = true) : Unread t (fireTimer env Hook.quiet t) := by
  unfold Udx.fireTimer
  cases htimer : t.tm.timer with
  | none => exact refl t
  | some x =>
    obtain ⟨timer, due⟩ := x
    have hclear : Unread t (clearTimer t) := (refl t).still id rfl rfl
    dsimp only
    split
    · exact refl t
    next hdue =>
    cases timer with
    | none => exact hclear
    | rto =>
      have hcount : (t.tm.rtoCount + 1) % 2 ^ 8 ≤ UDX_MAX_RTO_TIMEOUTS := by
        simp only [Event.quiet, htimer, Bool.or_eq_true, decide_eq_true_eq] at hq
        exact hq.resolve_left hdue
      simp only [runTimer]
      rw [udxRtoTimeout_quiet (s := clearTimer t) hcount]
      exact (hclear.rtoStart).rtoResend env
    | rackReo => exact hclear.sends ((Sends.refl _).udxRackReoTimeout env)
    | tlp => exact hclear.sends ((Sends.refl _).udxTlpTimeout env)
    | zwp => exact hclear.sends ((Sends.refl _).udxZwpTimeout env)
    | keepalive => exact hclear.sends ((Sends.refl _).udxKeepaliveTimeout env)

/-- One case for each event that calls nothing back. -/
theorem runEvent_quiet (env : Env) {e : Event} (hq : e.quiet t = true) :
    Unread t (runEvent env Hook.quiet e t) := by
  have ht : Unread t t := refl t
  cases e with
  | call c => cases hq
  | recv d same => cases hq
  | relayClosed => cases hq
  | timer => exact fireTimer env hq
  | pacing =>
    simp only [runEvent, firePacing]
    have hclear : Unread t (clearPacing t) := ht.still id rfl rfl
    split
    · exact ht
    · split
      · exact ht
      · exact hclear.sends ((Sends.refl _).pacingTimerTimeout env)
  | prepare =>
    simp only [runEvent, firePrepare]
    split
    · exact ht.sends ((Sends.refl _)._sendNewPacket env false)
    · exact ht
  | uvSent i =>
    simp only [runEvent, uvSent]
    split
    · exact ht
    · split
      · exact ht
      · next u hu hsent => exact (ht.note (e := .wire (.packet u.pkt) u.dest (t.tx.gather u.bufs)) rfl).still id rfl rfl
  | uvDone i =>
    simp only [runEvent, uvDone]
    split
    · exact ht
    · exact ht.still id rfl rfl
  | copySent i =>
    simp only [runEvent, copySent]
    split
    · exact ht
    · split
      · exact ht
      · next u hu hsent => exact (ht.note (e := .wire u.kind u.dest u.bytes) rfl).still id rfl rfl
  | copyDone i =>
    have hdrop : Unread t (dropCopy i t) := ht.still id rfl rfl
    simp only [runEvent, copyDone]
    simp only [Event.quiet] at hq
    split
    · exact ht
    next u hu =>
    rw [hu] at hq
    cases hk : u.kind with
    | destroy => simp [hk] at hq
    | message onSend =>
      cases onSend with
      | true => simp [hk] at hq
      | false => exact hdrop
    | _ => exact hdrop
  | tick ms => exact ht.still id rfl rfl
  | timewaitTimeout =>
    simp only [runEvent, timewaitTimeout]
    split
    · exact ht
    · split
      · exact ht
      · exact ht.still id rfl rfl

end Unread

/-! ### Moves -/

variable {env : Env}

theorem PlainMove.unread {s t : Stream} (h : PlainMove env s t) : Unread s t := by
  have hs : Unread s s := .refl s
  cases h with
  | call c _ hc =>
    have hrun := (hs.note (e := .call c s.toCore) rfl).runCall_plain env hc
    unfold Udx.call
    exact hrun.note rfl
  | enter => exact hs.note rfl
  | result => exact hs.note rfl
  | returned => exact hs.note rfl
  | teardown => exact hs.still id rfl rfl

theorem CallMove.unread {s t : Stream} (h : CallMove env s t) : Unread s t := by
  have hs : Unread s s := .refl s
  cases h with
  | plain hm => exact hm.unread
  | bind socket id addr => exact (hs.note (e := .call (.connect socket id addr) s.toCore) rfl).connectBind env socket id addr
  | keepalive => exact hs.connectKeepalive
  | message data onSend =>
    unfold messageSend
    exact (hs.sends ((Sends.refl s).sendCopy env _ _ _)).announce _ rfl
  | deferAck => exact hs.still id rfl rfl
  | ackOut => exact hs.ackOut env
  | closeEnded => exact hs.closeEnded env
  | dropTimewait => exact hs.still id rfl rfl
  | destroyStart => exact hs.destroyStart env
  | close err => exact hs.closeStart env err
  | cancelPkt =>
    unfold Udx.cancelPkt
    exact (hs.check _ _).still id rfl rfl
  | cancelSeq => exact hs.still id rfl rfl
  | cancelChunk c rest =>
    have hset : Unread s (setCancelling rest s) := hs.still id rfl rfl
    exact (hset.countBytes _ _ _).announceCancel _
  | cancelDone => exact hs.still id rfl rfl
  | cancelQueued b rest =>
    have hshift : Unread s (shiftWriteQueue rest s) := hs.still id rfl rfl
    exact (hshift.countBytes _ _ _).announceCancel _
  | release _ hclosed => exact hs.releaseHandles hclosed

theorem CallPath.unread {s t : Stream} (h : CallPath env s t) : Unread s t := by
  induction h with
  | refl s => exact .refl s
  | tail _ hm ih => exact ih.trans hm.unread
  | @connecting s t u _ _ ih ih' =>
    have hopen : Unread s (setConnecting true t) := ih.still id rfl rfl
    exact Unread.still (hopen.trans ih') id rfl rfl

theorem AckMove.unread {s t : Stream} (h : AckMove env s t) : Unread s t := by
  have hs : Unread s s := .refl s
  cases h with
  | window p =>
    have hwin : Unread s (updateSendWindow p.h (setProcessing true s)) := by
      unfold updateSendWindow stopZwp
      split_ifs <;> exact hs.still id rfl rfl
    unfold windowStage
    dsimp only
    split
    · have hchanged : Unread s (remoteChanged (updateSendWindow p.h (setProcessing true s))) :=
        hwin.still id rfl rfl
      exact hchanged.announce _ rfl
    · exact hwin
  | ackInit p =>
    have hreach : Unread s ((detectLossRepairedByLossProbe p.h.ack s).note (.reached (.episode p.h.ack)
        (detectLossRepairedByLossProbe p.h.ack s).toCore)) :=
      (hs.still (u := detectLossRepairedByLossProbe p.h.ack s) id rfl rfl).note rfl
    exact hreach.still id rfl rfl
  | ackAbsent p c =>
    have hnext : Unread s (setCursor (some (c + 1)) s) := hs.still id rfl rfl
    exact (hnext.check .cirbufNull _).still id rfl rfl
  | sackAbsent c => exact hs.check .cirbufNull _
  | ackTake p c k =>
    have hnext : Unread s (setCursor (some (c + 1)) s) := hs.still id rfl rfl
    exact hnext.ackTake c k false
  | sackTake c k => exact hs.ackTake c k true
  | sackDead c k x rest => exact (hs.ackTake c k true).chunkStage x rest
  | chunk c rest => exact hs.chunkStage c rest
  | complete b sack =>
    have hclear : Unread s (clearAckDue s) := hs.still id rfl rfl
    exact hclear.announce _ rfl
  | ackDone k =>
    unfold Udx.ackDone ackEnd
    split
    · exact hs.still id rfl rfl
    · exact hs.still id rfl rfl
  | ackDrop => exact hs.still id rfl rfl
  | advance p => exact hs.advanceRemoteAcked p
  | advanceAll p =>
    have hset : Unread s (setSacksLeft [] (advanceRemoteAcked p s)) :=
      (hs.advanceRemoteAcked p).still id rfl rfl
    exact hset.sends ((Sends.refl _).settleAcks env p _)
  | advanceEnded p => exact (hs.advanceRemoteAcked p).sends (Sends.refl _).timerEnded
  | advanceDead p => exact hs.advanceRemoteAcked p
  | sackNext => exact hs.still id rfl rfl
  | settle p => exact hs.sends ((Sends.refl s).settleAcks env p _)
  | finishPacket p delivered =>
    have hsend := (hs.bbrPacket env p delivered).sends ((Sends.refl _).sendPackets env)
    unfold Udx.finishPacket
    generalize sendPackets env (bbrPacket env p delivered s) = x at hsend ⊢
    exact hsend.still id rfl rfl


theorem Path.unread {s t : Stream} (h : Path env (AckMove env) s t) : Unread s t :=
  h.preserves (I := Unread s) (fun hm hs => hs.trans hm.unread) (fun hp hs => hs.trans hp.unread) (.refl s)

/-! ### Events -/

theorem processTimewait_unread (env : Env) (type : UInt8) (s : Stream) :
    Unread s (processTimewait env type s) := by
  unfold processTimewait
  split
  · split
    · exact (Unread.refl s).sends ((Sends.refl s).sendCopy env _ _ _)
    · exact .refl s
  · exact .refl s

theorem quiet_tame (env : Env) : Tame env Hook.quiet := Layered.quiet.tame

theorem invoke_unread {c : Callback} (hc : (Entry.callback c).read? = none) (s : Stream) :
    Unread s (s.invoke Hook.quiet c) := ((Unread.refl s).note hc).note rfl

/-- The expiry of the stream timer: only the RTO may close the stream. -/
theorem fireTimer_unread (env : Env) (s : Stream) : Unread s (fireTimer env Hook.quiet s) := by
  by_cases hq : Event.quiet s .timer = true
  · exact .fireTimer env hq
  unfold fireTimer
  split
  · exact .refl s
  next timer due htimer =>
  split
  · exact .refl s
  have hclear : Unread s (clearTimer s) := (Unread.refl s).still id rfl rfl
  cases timer with
  | rto =>
    simp only [runTimer, udxRtoTimeout]
    split
    · exact (hclear.rtoStart.closeUnlessDestroying env .timedOut).trans
        (closeUnlessDestroying_path (quiet_tame env) .timedOut _).unread
    · exact hclear.rtoStart.rtoResend env
  | _ => exact absurd (by simp [Event.quiet, htimer]) hq

theorem copyDone_unread (env : Env) (i : ℕ) (s : Stream) : Unread s (copyDone env Hook.quiet i s) := by
  unfold copyDone
  split
  · exact .refl s
  have hdrop : Unread s (dropCopy i s) := (Unread.refl s).still id rfl rfl
  dsimp only
  split
  · exact (hdrop.closeStart env .none).trans (closeStart_path (quiet_tame env) .none _).unread
  · exact (hdrop.announce _ rfl).trans ((quiet_tame env).invokeIf _ _ _).unread
  · exact hdrop

theorem relayClosed_unread (env : Env) (s : Stream) : Unread s (relayClosed env Hook.quiet s) := by
  unfold relayClosed
  split
  · exact ((Unread.refl s).relayGone env).trans (relayGone_path (quiet_tame env) s).unread
  · exact .refl s

/-- Nothing but a datagram brings in what the peer sent. -/
theorem step_unread (env : Env) {e : Event} (he : ∀ d same, e ≠ .recv d same) (s : Stream) :
    Unread s (step env Hook.quiet e s) := by
  have hbegin : Unread s (beginEvent e s) := (Unread.refl s).note rfl
  have hrun : Unread (beginEvent e s) (runEvent env Hook.quiet e (beginEvent e s)) := by
    generalize beginEvent e s = x
    by_cases hq : e.quiet x = true
    · exact .runEvent_quiet env hq
    cases e with
    | call c => exact (call_path (quiet_tame env) c x).unread
    | recv d same => exact absurd rfl (he d same)
    | relayClosed => exact relayClosed_unread env x
    | copyDone i => exact copyDone_unread env i x
    | timer => exact fireTimer_unread env x
    | pacing | prepare | uvSent | uvDone | copySent | tick | timewaitTimeout => exact absurd rfl hq
  exact (hbegin.trans hrun).still id rfl rfl

end Udx
