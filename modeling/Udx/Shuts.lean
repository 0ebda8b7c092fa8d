/-
# EOF

A stream that has reported EOF to `on_read` has done so for good: nothing
takes `UDX_STREAM_ENDED_REMOTE` back, and only what sets it calls back with
EOF, so that EOF is reported once at most. What does not take packets sets it
only where the END packet has come and the ack is not behind it.

Key definitions: `Stream.eofs`, `Shut`, `Core.EofDue`, `Shutting`.
Key theorems: `CallPath.shutting`, `Move.shut`, `Reach.eof_once`.
-/
import Udx.Unread

namespace Udx

open Serial

def Entry.isEof : Entry → Bool
  | .callback .eof => true
  | _ => false

/-- How often EOF was reported. -/
def Stream.eofs (s : Stream) : ℕ := s.log.countP Entry.isEof

theorem Stream.eofs_note (e : Entry) (s : Stream) : (s.note e).eofs = s.eofs + e.isEof.toNat := by
  unfold Stream.eofs Stream.note
  rw [List.countP_cons]
  cases e.isEof <;> rfl

/-- EOF stays reported, and is reported where ENDED_REMOTE is set. -/
structure Shut (s t : Stream) : Prop where
  ended : s.st.endedRemote = true → t.st.endedRemote = true
  eofs : t.eofs + s.st.endedRemote.toNat ≤ s.eofs + t.st.endedRemote.toNat

namespace Shut

variable {s t u : Stream}

theorem refl (s : Stream) : Shut s s := ⟨id, Nat.le_refl _⟩

theorem trans (h : Shut s t) (h' : Shut t u) : Shut s u := by
  have h1 := h.eofs
  have h2 := h'.eofs
  exact ⟨h'.ended ∘ h.ended, by omega⟩

/-- Neither ENDED_REMOTE nor the log changes. -/
theorem still (h : Shut s t) (hst : u.st.endedRemote = t.st.endedRemote) (hl : u.log = t.log) : Shut s u := by
  refine h.trans ⟨fun ht => hst.trans ht, Nat.le_of_eq ?_⟩
  rw [hst, Stream.eofs, Stream.eofs, hl]

theorem note (h : Shut s t) {e : Entry} (he : e.isEof = false) : Shut s (t.note e) := by
  refine h.trans ⟨id, Nat.le_of_eq ?_⟩
  rw [Stream.eofs_note, he]
  rfl

/-- A payload goes to `on_read`. -/
theorem announceRead (h : Shut s t) (data : List UInt8) : Shut s (announceRead data t) := by
  unfold Udx.announceRead
  split <;> exact h.note rfl

end Shut

/-! ### Steps that take nothing from the peer -/

/-- What EOF depends on. -/
def Core.finale (c : Core) : Bool × Bool × SeqNo × SeqNo :=
  (c.st.endedRemote, c.st.endingRemote, c.rx.remoteEnded, c.rx.ack)

/-- The peer has ended, and its END packet is in line or behind. -/
def Core.EofDue (c : Core) : Prop := c.st.endingRemote = true ∧ seqCompare c.rx.remoteEnded c.rx.ack ≤ 0

/-- A step beside the read path reports EOF only where it is due. -/
structure Shutting (s t : Stream) : Prop extends Shut s t where
  due : t.st.endedRemote = true → s.st.endedRemote = true ∨ s.EofDue
  ending : t.st.endingRemote = s.st.endingRemote
  remoteEnded : t.rx.remoteEnded = s.rx.remoteEnded
  ack : t.rx.ack = s.rx.ack

namespace Shutting

variable {s t u : Stream}

theorem refl (s : Stream) : Shutting s s := ⟨.refl s, .inl, rfl, rfl, rfl⟩

theorem trans (h : Shutting s t) (h' : Shutting t u) : Shutting s u := by
  refine ⟨h.toShut.trans h'.toShut, fun hu => ?_, h'.ending.trans h.ending, h'.remoteEnded.trans h.remoteEnded,
    h'.ack.trans h.ack⟩
  rcases h'.due hu with ht | ⟨hending, hcmp⟩
  · exact h.due ht
  · rw [h.remoteEnded, h.ack] at hcmp
    exact .inr ⟨h.ending ▸ hending, hcmp⟩

section

variable (h : Shutting s t)
include h

/-- Neither what EOF depends on nor the log changes. -/
theorem still (hst : u.finale = t.finale) (hl : u.log = t.log) : Shutting s u := by
  have hended : u.st.endedRemote = t.st.endedRemote := (congrArg Prod.fst hst :)
  refine h.trans ⟨(Shut.refl t).still hended hl, fun hu => .inl (hended ▸ hu), (congrArg (fun x => x.2.1) hst :),
    (congrArg (fun x => x.2.2.1) hst :), (congrArg (fun x => x.2.2.2) hst :)⟩

theorem note {e : Entry} (he : e.isEof = false) : Shutting s (t.note e) :=
  h.trans ⟨(Shut.refl t).note he, .inl, rfl, rfl, rfl⟩

theorem sends (h' : Sends t u) : Shutting s u := by
  obtain ⟨l, hl, hsend⟩ := h'.log
  refine h.trans ⟨⟨fun ht => h'.st ▸ ht, Nat.le_of_eq ?_⟩, fun hu => .inl (h'.st ▸ hu),
    congrArg Status.endingRemote h'.st, congrArg Rx.remoteEnded h'.rx, congrArg Rx.ack h'.rx⟩
  have hnone : l.countP Entry.isEof = 0 := by
    rw [List.countP_eq_zero]
    intro e he
    have hs := hsend e he
    cases e <;> first | exact Bool.false_ne_true | cases hs
  rw [h'.st, Stream.eofs, Stream.eofs, hl, List.countP_append, hnone, Nat.zero_add]

theorem check (a : Site) (p : Prop) [Decidable p] : Shutting s (t.check a p) :=
  h.sends ((Sends.refl t).check a p)

theorem announce (on : Bool) {c : Callback} (hc : (Entry.callback c).isEof = false) :
    Shutting s (t.announce on c) := by
  unfold Stream.announce
  split
  · exact h.note hc
  · exact h

/-- EOF is reported, once. -/
theorem reportEof (hopen : t.st.endedRemote = false) (hdue : t.EofDue) (on : Bool) :
    Shutting s ((setEndedRemote t).announce on .eof) := by
  unfold Stream.announce
  split
  · refine h.trans ⟨⟨fun _ => rfl, ?_⟩, fun _ => .inr hdue, rfl, rfl, rfl⟩
    rw [Stream.eofs_note, hopen]
    exact Nat.le_refl (t.eofs + 1)
  · refine h.trans ⟨⟨fun _ => rfl, ?_⟩, fun _ => .inr hdue, rfl, rfl, rfl⟩
    rw [hopen]
    exact Nat.le_add_right t.eofs 1

theorem ackOut (env : Env) : Shutting s (ackOut env t) := by
  have hsend := h.sends ((Sends.refl t).sendCopy env .ack t.peer.dest (ackDatagram env t))
  unfold Udx.ackOut
  dsimp only
  split
  · next hdue =>
    unfold eofDue Status.shouldEndRemote at hdue
    simp only [Bool.and_eq_true, Bool.not_eq_true', Bool.or_eq_false_iff, decide_eq_true_eq] at hdue
    exact hsend.reportEof hdue.1.2.1 ⟨hdue.1.1, hdue.2⟩ _
  · exact hsend

/-! ### Closing -/

theorem markDead : Shutting s (markDead t) := by
  unfold Udx.markDead
  split
  · exact h
  · exact h.note rfl

theorem closeStart (env : Env) (err : CloseErr) : Shutting s (closeStart env err t) := by
  have hset : Shutting s (setClosed (Udx.markDead (t.check .closeTwice (t.st.closed = false)))) :=
    ((h.check _ _).markDead).still rfl rfl
  unfold Udx.closeStart closeBegin
  dsimp only
  split
  · have hwait := hset.still (u := streamTimewait env (setClosed (Udx.markDead
      (t.check .closeTwice (t.st.closed = false))))) rfl rfl
    exact hwait.announce _ rfl
  · exact hset.announce _ rfl

theorem destroyStart (env : Env) : Shutting s (destroyStart env t) := by
  have hset : Shutting s (setDestroying t) := h.markDead.still rfl rfl
  have hreach : Shutting s ((setDestroying t).note (.reached .destroySend (setDestroying t).toCore)) :=
    hset.note rfl
  have hseq : Shutting s (((setDestroying t).note (.reached .destroySend (setDestroying t).toCore)).withTx
      Tx.advanceSeq) := hreach.still rfl rfl
  unfold Udx.destroyStart
  dsimp only
  split
  · exact hset.closeStart env _
  · unfold destroySend queueCopy
    exact hseq.sends ((Sends.refl _).sendCopy env _ _ _)

theorem closeUnlessDestroying (env : Env) (err : CloseErr) :
    Shutting s (closeUnlessDestroying env err t) := by
  have hdrop : Shutting s (dropTimewaitOnError err t) := by
    unfold dropTimewaitOnError
    split
    · exact h.still rfl rfl
    · exact h
  unfold Udx.closeUnlessDestroying
  dsimp only
  split
  · exact hdrop
  · exact hdrop.closeStart env err

theorem closeEnded (env : Env) : Shutting s (closeEnded env t) := by
  unfold Udx.closeEnded checkEnded
  exact ((h.check _ _).check _ _).closeUnlessDestroying env _

theorem relayGone (env : Env) : Shutting s (relayGone env t) := by
  have hclear : Shutting s (clearRelayTo t) := h.still rfl rfl
  have hdrop : Shutting s (dropTimewait (clearRelayTo t)) := hclear.still rfl rfl
  unfold Udx.relayGone
  dsimp only
  split_ifs
  · exact hclear
  · exact hdrop.closeStart env .none
  · exact hdrop.destroyStart env

theorem countBytes (b bytes : ℕ) (cancelled : Bool) : Shutting s (countBytes b bytes cancelled t) := by
  have hcheck : Shutting s (checkBytes b bytes cancelled t) := by
    unfold checkBytes
    dsimp only
    split
    · exact ((h.check _ _).check _ _).check _ _
    · exact (((h.check _ _).check _ _).check _ _).check _ _
  unfold Udx.countBytes
  exact hcheck.still rfl rfl

theorem releaseHandles : Shutting s (releaseHandles t) := by
  unfold Udx.releaseHandles udxStreamReadStop
  split <;> exact h.still rfl rfl

/-! ### Calls -/

theorem setRemoteAddr (socket : Option Socket) (addr : SockAddr) :
    Shutting s (setRemoteAddr socket addr t).1 := by
  unfold Udx.setRemoteAddr
  dsimp only
  split_ifs <;> exact h.still rfl rfl

theorem connectBind (env : Env) (socket : Socket) (id : SeqNo) (addr : SockAddr) :
    Shutting s (connectBind env socket id addr t).1 := by
  have hconn : Shutting s ((t.withSt fun st => { st with connected := true }).withPeer fun peer =>
      { peer with remoteId := id, socket := some socket }) := h.still rfl rfl
  have haddr := hconn.setRemoteAddr (some socket) addr
  unfold Udx.connectBind
  dsimp only
  split
  · exact haddr.still rfl rfl
  · exact haddr

theorem connectKeepalive : Shutting s (connectKeepalive t) := by
  have hnote : Shutting s (t.note (.reached .connectKeepalive t.toCore)) := h.note rfl
  unfold Udx.connectKeepalive
  dsimp only
  split
  · exact hnote.sends ((Sends.refl _).streamTimerStart _ _)
  · exact hnote

theorem changeRemote (socket : Socket) (id : SeqNo) (cb : Bool) :
    Shutting s (changeRemote socket id cb t).1 := by
  obtain ⟨peer, changed, capacity, heq⟩ := changeRemote_eq socket id cb t
  rw [heq]
  exact h.still rfl rfl

theorem writeResult : Shutting s (writeResult t).1 := by
  unfold Udx.writeResult
  split
  · exact h.still rfl rfl
  · exact h

theorem _udxStreamWrite (env : Env) (bufs : List (List UInt8)) (onAck e : Bool) :
    Shutting s (_udxStreamWrite env bufs onAck e t) := by
  have hqueue : Shutting s (t.withTx fun tx => tx.queueWrite bufs onAck e) := h.still rfl rfl
  have hprobe : Shutting s (queueWrite env bufs onAck e t) := by
    unfold queueWrite probeWindow
    dsimp only
    split
    · exact hqueue.sends (((Sends.refl _).sendProbe env).streamTimerStart _ _)
    · exact hqueue
  unfold Udx._udxStreamWrite
  exact hprobe.sends ((Sends.refl _).sendPackets env)

/-- One case for each call that never calls back. -/
theorem runCall_plain (env : Env) {c : Call} (hc : c.plain = true) :
    Shutting s (runCall env Hook.quiet c t).1 := by
  cases c with
  | connect socket id addr => cases hc
  | send data onSend => cases hc
  | destroy => cases hc
  | teardown => cases hc
  | changeRemote socket id addr cb =>
    have haddr := h.setRemoteAddr t.peer.socket addr
    simp only [runCall, udxStreamChangeRemote]
    split_ifs
    · exact h
    · exact h
    · exact haddr
    · exact haddr.changeRemote _ _ _
  | write bufs onAck =>
    simp only [runCall, udxStreamWrite]
    split_ifs
    · exact h
    · exact h
    · exact h
    · exact (h._udxStreamWrite env _ _ _).writeResult
  | writeEnd bufs onAck =>
    have hset : Shutting s (setEnding t) := h.still rfl rfl
    simp only [runCall, udxStreamWriteEnd]
    split_ifs
    · exact h
    · exact h
    all_goals exact (hset._udxStreamWrite env _ _ _).writeResult
  | setRwndMax size | firewall set | writeResume set => exact h.still rfl rfl
  | relayTo destinationClosed =>
    simp only [runCall, udxStreamRelayTo]
    split <;> exact h.still rfl rfl
  | setKeepalive ms =>
    simp only [runCall, udxStreamSetKeepalive]
    split <;> exact h.still rfl rfl
  | recvStart =>
    simp only [runCall, udxStreamRecvStart]
    split <;> exact h.still rfl rfl
  | recvStop =>
    simp only [runCall, udxStreamRecvStop]
    split <;> exact h.still rfl rfl
  | readStart =>
    simp only [runCall, udxStreamReadStart]
    split <;> exact h.still rfl rfl
  | readStop =>
    simp only [runCall, udxStreamReadStop]
    split <;> exact h.still rfl rfl

/-! ### Timers -/

theorem rtoStart : Shutting s (rtoStart t) := by
  have hnone : Shutting s (t.withTm fun tm => { tm with pendingTimer := .none }) := h.still rfl rfl
  have hout : Shutting s (((t.withTm fun tm => { tm with pendingTimer := .none }).check .rtoConnected
      (t.st.connected = true)).check .rtoOutstanding (t.tx.remoteAcked ≠ t.tx.seq)) :=
    (hnone.check _ _).check _ _
  unfold Udx.rtoStart
  dsimp only
  rw [Stream.check_tx, show (t.withTm fun tm => { tm with pendingTimer := .none }).tx = t.tx from rfl,
    show (t.withTm fun tm => { tm with pendingTimer := .none }).st = t.st from rfl]
  generalize ((t.withTm fun tm => { tm with pendingTimer := .none }).check .rtoConnected
      (t.st.connected = true)).check .rtoOutstanding (t.tx.remoteAcked ≠ t.tx.seq) = x at hout ⊢
  have henter : Shutting s (rtoEnterLoss x) := by
    unfold rtoEnterLoss
    exact Shutting.still (hout.sends (Sends.refl x).bbrSaveCwnd) rfl rfl
  have hback : ∀ {y : Stream}, Shutting s y → Shutting s (rtoBackOff y) := by
    intro y hy
    have hcount : Shutting s (y.withTm fun tm => { tm with rtoCount := (tm.rtoCount + 1) % 2 ^ 8 }) :=
      hy.still rfl rfl
    unfold rtoBackOff
    exact (hcount.check _ _).sends ((Sends.refl _).streamTimerStart _ _)
  exact (hback henter).still rfl rfl

theorem rtoResend (env : Env) : Shutting s (rtoResend env t) := by
  have hlooped := h.sends (rtoLoop_sends (rackUpdateReoWnd t) (t.tx.seq - t.tx.remoteAcked).toNat
    t.tx.remoteAcked (Sends.refl t))
  unfold Udx.rtoResend
  dsimp only
  generalize rtoLoop (rackUpdateReoWnd t) (t.tx.seq - t.tx.remoteAcked).toNat t.tx.remoteAcked t = x
    at hlooped ⊢
  have hcwnd : Shutting s (bbrOnRto (x.withCc fun cc => { cc with cwnd := x.tx.inflightQueue.length + 1 })) :=
    hlooped.still rfl rfl
  exact hcwnd.sends ((Sends.refl _).sendPackets env)

/-! ### Acknowledgements -/

theorem ackTake (seq : SeqNo) (k : ℕ) (sack : Bool) : Shutting s (ackTake seq k sack t) := by
  have hcheck := h.check .cirbufNull (t.tx.outgoingLive = true)
  unfold Udx.ackTake
  generalize t.check .cirbufNull (t.tx.outgoingLive = true) = x at hcheck ⊢
  have hreach : Shutting s (x.note (.reached (.ackTake k) x.toCore)) := hcheck.note rfl
  have hrx : (takeAcked seq k sack x).rx = x.rx := (congrArg (fun y => y.rx) (takeAcked_besideCc seq k sack x) :)
  refine hreach.still ?_ (takeAcked_log seq k sack x)
  unfold Core.finale
  rw [takeAcked_st, hrx]
  rfl

theorem chunkStage (c : Chunk) (rest : List Chunk) : Shutting s (chunkStage c rest t) := by
  have hbytes : Shutting s (ackBytes c rest t) := by
    have hacked : Shutting s (setAcking rest (some c.wbuf)
        (t.withTx fun tx => { tx with bytesAcked := tx.bytesAcked + c.len })) := h.still rfl rfl
    exact hacked.countBytes _ _ _
  unfold Udx.chunkStage
  dsimp only
  split
  · have hclear : Shutting s (clearHighWatermark (ackBytes c rest t)) := hbytes.still rfl rfl
    exact hclear.announce _ rfl
  · exact hbytes

theorem advanceRemoteAcked (p : RxPacket) : Shutting s (advanceRemoteAcked p t) := by
  unfold Udx.advanceRemoteAcked
  dsimp only
  split <;> exact h.still rfl rfl

theorem bbrPacket (env : Env) (p : RxPacket) (delivered : ℕ) : Shutting s (bbrPacket env p delivered t) := by
  have hrate : ∀ lost, Shutting s (udxRateGen delivered lost t) := by
    intro lost
    obtain ⟨rs, limited, ts, rate, interval, sampled, hgen⟩ := udxRateGen_eq delivered lost t
    rw [hgen]
    exact h.still rfl rfl
  unfold Udx.bbrPacket
  dsimp only
  split
  · exact (hrate _).sends ((Sends.refl _).bbrMain env _)
  · exact h

end

/-! ### Events -/

/-- The stream timer, where its expiry does not call back. -/
theorem fireTimer (env : Env) (hq : Event.quiet t .timer = true) : Shutting t (fireTimer env Hook.quiet t) := by
  unfold Udx.fireTimer
  cases htimer : t.tm.timer with
  | none => exact refl t
  | some x =>
    obtain ⟨timer, due⟩ := x
    have hclear : Shutting t (clearTimer t) := (refl t).still rfl rfl
    dsimp only
    split
    · exact refl t
    next hdue =>
    cases timer with
    | none => exact hclear
    | rto =>
      have hcount : (t.tm.rtoCount + 1) % 2 ^ 8 ≤ UDX_MAX_RTO_TIMEOUTS := by
        simp only [Event.quiet, htimer, Bool.or_eq_true, decide_eq_true_eq] at hq
        exact hq.resolve_left hdue
      simp only [runTimer]
      rw [udxRtoTimeout_quiet (s := clearTimer t) hcount]
      exact (hclear.rtoStart).rtoResend env
    | rackReo => exact hclear.sends ((Sends.refl _).udxRackReoTimeout env)
    | tlp => exact hclear.sends ((Sends.refl _).udxTlpTimeout env)
    | zwp => exact hclear.sends ((Sends.refl _).udxZwpTimeout env)
    | keepalive => exact hclear.sends ((Sends.refl _).udxKeepaliveTimeout env)

/-- One case for each event that calls nothing back. -/
theorem runEvent_quiet (env : Env) {e : Event} (hq : e.quiet t = true) :
    Shutting t (runEvent env Hook.quiet e t) := by
  have ht : Shutting t t := refl t
  cases e with
  | call c => cases hq
  | recv d same => cases hq
  | relayClosed => cases hq
  | timer => exact fireTimer env hq
  | pacing =>
    simp only [runEvent, firePacing]
    have hclear : Shutting t (clearPacing t) := ht.still rfl rfl
    split
    · exact ht
    · split
      · exact ht
      · exact hclear.sends ((Sends.refl _).pacingTimerTimeout env)
  | prepare =>
    simp only [runEvent, firePrepare]
    split
    · exact ht.sends ((Sends.refl _)._sendNewPacket env false)
    · exact ht
  | uvSent i =>
    simp only [runEvent, uvSent]
    split
    · exact ht
    · split
      · exact ht
      · next u hu hsent => exact (ht.note (e := .wire (.packet u.pkt) u.dest (t.tx.gather u.bufs)) rfl).still rfl rfl
  | uvDone i =>
    simp only [runEvent, uvDone]
    split
    · exact ht
    · exact ht.still rfl rfl
  | copySent i =>
    simp only [runEvent, copySent]
    split
    · exact ht
    · split
      · exact ht
      · next u hu hsent => exact (ht.note (e := .wire u.kind u.dest u.bytes) rfl).still rfl rfl
  | copyDone i =>
    have hdrop : Shutting t (dropCopy i t) := ht.still rfl rfl
    simp only [runEvent, copyDone]
    simp only [Event.quiet] at hq
    split
    · exact ht
    next u hu =>
    rw [hu] at hq
    cases hk : u.kind with
    | destroy => simp [hk] at hq
    | message onSend =>
      cases onSend with
      | true => simp [hk] at hq
      | false => exact hdrop
    | _ => exact hdrop
  | tick ms => exact ht.still rfl rfl
  | timewaitTimeout =>
    simp only [runEvent, timewaitTimeout]
    split
    · exact ht
    · split
      · exact ht
      · exact ht.still rfl rfl

end Shutting

/-! ### Moves -/

variable {env : Env}

theorem PlainMove.shutting {s t : Stream} (h : PlainMove env s t) : Shutting s t := by
  have hs : Shutting s s := .refl s
  cases h with
  | call c _ hc =>
    have hrun := (hs.note (e := .call c s.toCore) rfl).runCall_plain env hc
    unfold Udx.call
    exact hrun.note rfl
  | enter => exact hs.note rfl
  | result => exact hs.note rfl
  | returned => exact hs.note rfl
  | teardown => exact hs.still rfl rfl

theorem CallMove.shutting {s t : Stream} (h : CallMove env s t) : Shutting s t := by
  have hs : Shutting s s := .refl s
  cases h with
  | plain hm => exact hm.shutting
  | bind socket id addr =>
    exact (hs.note (e := .call (.connect socket id addr) s.toCore) rfl).connectBind env socket id addr
  | keepalive => exact hs.connectKeepalive
  | message data onSend =>
    unfold messageSend
    exact (hs.sends ((Sends.refl s).sendCopy env _ _ _)).announce _ rfl
  | deferAck => exact hs.still rfl rfl
  | ackOut => exact hs.ackOut env
  | closeEnded => exact hs.closeEnded env
  | dropTimewait => exact hs.still rfl rfl
  | destroyStart => exact hs.destroyStart env
  | close err => exact hs.closeStart env err
  | cancelPkt =>
    unfold Udx.cancelPkt
    exact (hs.check _ _).still rfl rfl
  | cancelSeq => exact hs.still rfl rfl
  | cancelChunk c rest =>
    have hset : Shutting s (setCancelling rest s) := hs.still rfl rfl
    exact (hset.countBytes _ _ _).announce _ rfl
  | cancelDone => exact hs.still rfl rfl
  | cancelQueued b rest =>
    have hshift : Shutting s (shiftWriteQueue rest s) := hs.still rfl rfl
    exact (hshift.countBytes _ _ _).announce _ rfl
  | release => exact hs.releaseHandles

theorem CallPath.shutting {s t : Stream} (h : CallPath env s t) : Shutting s t := by
  induction h with
  | refl s => exact .refl s
  | tail _ hm ih => exact ih.trans hm.shutting
  | @connecting s t u _ _ ih ih' =>
    have hopen : Shutting s (setConnecting true t) := ih.still rfl rfl
    exact Shutting.still (hopen.trans ih') rfl rfl

theorem LoopMove.shutting {s t : Stream} (h : LoopMove env s t) : Shutting s t := by
  have hs : Shutting s s := .refl s
  cases h with
  | quiet e _ he =>
    have hbegin : Shutting s (beginEvent e s) := (hs.note (e := .event e s.toCore) rfl).still rfl rfl
    have hrun := Shutting.runEvent_quiet env ((beginEvent_quiet e e s).trans he)
    exact (hbegin.trans hrun).still rfl rfl
  | begin e => exact (hs.note (e := .event e s.toCore) rfl).still rfl rfl
  | finish => exact hs.still rfl rfl
  | asked => exact hs.still rfl rfl
  | callback c _ hc => exact hs.note (by rcases hc with rfl | rfl <;> rfl)
  | giveUp =>
    have hclear : Shutting s (clearTimer s) := hs.still rfl rfl
    exact hclear.rtoStart.closeUnlessDestroying env _
  | copyGone => exact hs.still rfl rfl
  | destroySent i =>
    have hdrop : Shutting s (dropCopy i s) := hs.still rfl rfl
    exact hdrop.closeStart env _
  | relayGone => exact hs.relayGone env
  | relay seq => exact (hs.note (e := .reached (.relay seq) s.toCore) rfl).still rfl rfl
  | timewait type =>
    unfold processTimewait
    split
    · split
      · exact hs.sends ((Sends.refl s).sendCopy env _ _ _)
      · exact hs
    · exact hs

theorem RecvMove.shut {s t : Stream} (h : RecvMove s t) : Shut s t := by
  have hs : Shut s s := .refl s
  cases h with
  | packet => exact hs.still rfl rfl
  | take p =>
    have hnote : Shut s (noteAccept p.h.type p.h.seq p.data s) := hs.note rfl
    exact Shut.announceRead (hnote.still (u := takeNext _) rfl rfl) p.data
  | hold p =>
    have hnote : Shut s (noteAccept p.h.type p.h.seq p.data s) := hs.note rfl
    unfold holdPacket
    split
    · exact hs
    · exact hnote.still rfl rfl
  | endBit => exact hs.still rfl rfl
  | message => exact hs.note rfl
  | drainStart => exact hs.still rfl rfl
  | drainTake b rest =>
    have htake : Shut s (takeNext (setDraining rest s)) := hs.still rfl rfl
    unfold Udx.drainTake
    dsimp only
    split
    · exact htake.announceRead b.data
    · exact htake

theorem AckMove.shutting {s t : Stream} (h : AckMove env s t) : Shutting s t := by
  have hs : Shutting s s := .refl s
  cases h with
  | window p =>
    have hwin : Shutting s (updateSendWindow p.h (setProcessing true s)) := by
      unfold updateSendWindow stopZwp
      split_ifs <;> exact hs.still rfl rfl
    unfold windowStage
    dsimp only
    split
    · have hchanged : Shutting s (remoteChanged (updateSendWindow p.h (setProcessing true s))) :=
        hwin.still rfl rfl
      exact hchanged.announce _ rfl
    · exact hwin
  | ackInit p =>
    have hreach : Shutting s ((detectLossRepairedByLossProbe p.h.ack s).note (.reached (.episode p.h.ack)
        (detectLossRepairedByLossProbe p.h.ack s).toCore)) :=
      (hs.still (u := detectLossRepairedByLossProbe p.h.ack s) rfl rfl).note rfl
    exact hreach.still rfl rfl
  | ackAbsent p c =>
    have hnext : Shutting s (setCursor (some (c + 1)) s) := hs.still rfl rfl
    exact (hnext.check .cirbufNull _).still rfl rfl
  | sackAbsent c => exact hs.check .cirbufNull _
  | ackTake p c k =>
    have hnext : Shutting s (setCursor (some (c + 1)) s) := hs.still rfl rfl
    exact hnext.ackTake c k false
  | sackTake c k => exact hs.ackTake c k true
  | sackDead c k x rest => exact (hs.ackTake c k true).chunkStage x rest
  | chunk c rest => exact hs.chunkStage c rest
  | complete b sack =>
    have hclear : Shutting s (clearAckDue s) := hs.still rfl rfl
    exact hclear.announce _ rfl
  | ackDone k =>
    unfold Udx.ackDone ackEnd
    split <;> exact hs.still rfl rfl
  | ackDrop => exact hs.still rfl rfl
  | advance p => exact hs.advanceRemoteAcked p
  | advanceAll p =>
    have hset : Shutting s (setSacksLeft [] (advanceRemoteAcked p s)) :=
      (hs.advanceRemoteAcked p).still rfl rfl
    exact hset.sends ((Sends.refl _).settleAcks env p _)
  | advanceEnded p => exact (hs.advanceRemoteAcked p).sends (Sends.refl _).timerEnded
  | advanceDead p => exact hs.advanceRemoteAcked p
  | sackNext => exact hs.still rfl rfl
  | settle p => exact hs.sends ((Sends.refl s).settleAcks env p _)
  | finishPacket p delivered =>
    have hsend := (hs.bbrPacket env p delivered).sends ((Sends.refl _).sendPackets env)
    unfold Udx.finishPacket
    generalize sendPackets env (bbrPacket env p delivered s) = x at hsend ⊢
    exact hsend.still rfl rfl

theorem Move.shut {s t : Stream} (h : Move env s t) : Shut s t := by
  cases h with
  | loop h => exact h.shutting.toShut
  | recv h => exact h.shut
  | ack h => exact h.shutting.toShut

theorem Path.shut {s t : Stream} (h : Path env (Move env) s t) : Shut s t :=
  h.preserves (I := Shut s) (fun hm hs => hs.trans hm.shut) (fun hp hs => hs.trans hp.shutting.toShut) (.refl s)

/-! ### Runs -/

variable {cfg : Config}

/-- EOF is reported once at most, whatever the callbacks do, and only to a
stream that has ENDED_REMOTE set. -/
theorem Reach.eof_once {s : Stream} (h : Reach env cfg s) :
    s.eofs ≤ 1 ∧ (s.eofs = 1 → s.st.endedRemote = true) := by
  have hshut : Shut (Udx.init env cfg) s :=
    h.preserves (I := Shut (Udx.init env cfg)) (.refl _) (fun hm hs => hs.trans hm.shut)
      fun hp hs => hs.trans hp.shutting.toShut
  have heofs : s.eofs + 0 ≤ 0 + s.st.endedRemote.toNat := hshut.eofs
  refine ⟨?_, fun hone => ?_⟩
  · have hle := Bool.toNat_le s.st.endedRemote
    omega
  · cases hended : s.st.endedRemote
    · simp [hended, hone] at heofs
    · rfl

def eofConfig : Config := { localId := 1, seq := 0, ack := 0, now := 0 }

/-- A packet of the peer with the payload `[x]` that ends its stream. -/
def endDatagram (seq : SeqNo) (x : UInt8) : List UInt8 :=
  Header.encode { type := UDX_HEADER_DATA_OR_END, dataOffset := 0, remoteId := 1, rwnd := 0, seq := seq, ack := 0 } ++
    [x]

/-- The END packet comes twice, and another one after it. -/
def endedAgain : Stream :=
  runEvents .free [.call .readStart, .call (.connect ⟨0, .inet⟩ 2 ⟨.inet, 1, [1, 2, 3, 4]⟩),
    .recv (endDatagram 0 7) true, .recv (endDatagram 0 7) true, .recv (endDatagram 1 8) true]
    (Udx.init .free eofConfig)

theorem Reach.eof_once_again : endedAgain.eofs = 1 ∧ endedAgain.st.endedRemote = true := by
  have h : Reach .free eofConfig endedAgain := .runEvents .init _
  have hone : endedAgain.eofs = 1 := by decide +kernel
  exact ⟨hone, h.eof_once.2 hone⟩

end Udx
