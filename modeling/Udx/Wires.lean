/-
# Datagrams on the wire

Along every run, whatever the callbacks do to the stream: all datagrams of a
packet say the same, however often it is sent and whether or not it is padded
as an MTU probe. The exception is a probe that libuv still holds when it is
unprobed; its padding then counts as data.

Key theorems: `Move.mailed`, `Reach.mailed`, `Reach.wire_payload`.
-/
import Udx.Mails
import Udx.Sacks

namespace Udx

open Serial

namespace Tx

variable (t : Tx) (seq : SeqNo) (k : ℕ) (sack : Bool)

theorem mail_removeAcked : (t.removeAcked seq k sack).mail = t.mail := by
  unfold removeAcked
  dsimp only
  split_ifs <;> rfl

variable {t seq k sack}

theorem setOutgoing_none_le {a : SeqNo} {j : ℕ} (ha : (t.setOutgoing seq none).outgoing a = some j) :
    t.outgoing a = some j := by
  by_cases hne : a = seq
  · rw [hne, show (t.setOutgoing seq none).outgoing seq = none from Function.update_self ..] at ha
    cases ha
  · exact (Function.update_of_ne hne ..).symm.trans ha

/-- An acknowledged packet leaves the queues. -/
theorem Within.removeAcked : (t.removeAcked seq k sack).Within t := by
  unfold Tx.removeAcked
  dsimp only
  split_ifs <;> refine ⟨fun j h => ?_, fun a j h => setOutgoing_none_le h⟩ <;> rcases h with h | h | ⟨a, h⟩
  all_goals first
    | exact .inl h
    | exact .inl (List.mem_of_mem_erase h)
    | exact .inr (.inl h)
    | exact .inr (.inl (List.mem_of_mem_erase h))
    | exact .inr (.inr ⟨a, setOutgoing_none_le h⟩)

end Tx

/-- An ack has neither data nor the end of the stream. -/
theorem ackDatagram_dataless (env : Env) (s : Stream) : Dataless .ack (ackDatagram env s) := by
  refine .of_encode (by nofun) ?_ _
  show hasFlag (if _ then UDX_HEADER_SACK else 0) UDX_HEADER_DATA_OR_END = false
  split <;> decide

/-- Its ranges are blocks of the tree. -/
theorem ackDatagram_vouches (env : Env) {s : Stream} {P : SeqNo → Prop} {Q : SeqNo × SeqNo → Prop} (hack : P s.rx.ack)
    (htree : ∀ b ∈ s.rx.sackTree, Q (b.start, b.stop)) : Vouches P Q (ackDatagram env s) := by
  intro h hparse
  obtain rfl := Option.some.inj ((parse_ackDatagram env s).symm.trans hparse)
  refine ⟨hack, fun r hr => ?_⟩
  rw [readSacks_ackDatagram] at hr
  obtain ⟨b, hb, rfl⟩ := List.mem_map.mp hr
  exact htree b (List.mem_of_mem_take hb)

theorem announceRead_rx (data : List UInt8) (s : Stream) : (announceRead data s).rx = s.rx := by
  unfold announceRead
  split <;> rfl

namespace Mailed

variable {base : SeqNo} {P : SeqNo → Prop} {Q : SeqNo × SeqNo → Prop} {t u : Stream}

section

variable (h : Mailed base P Q t)
include h

theorem ackOut (env : Env) : Mailed base P Q (ackOut env t) := by
  have hsend := h.sendCopy env (k := .ack) (ackDatagram_dataless env t) (ackDatagram_vouches env h.ack h.tree)
    t.peer.dest
  unfold Udx.ackOut
  dsimp only
  split
  · have hset : Mailed base P Q (setEndedRemote (Udx.sendCopy env .ack t.peer.dest (ackDatagram env t) t)) :=
      hsend.quiet rfl rfl rfl rfl
    exact hset.announce _ _
  · exact hsend

/-! ### Closing -/

theorem markDead : Mailed base P Q (markDead t) := by
  unfold Udx.markDead
  split
  · exact h
  · exact h.note nofun

theorem closeStart (env : Env) (err : CloseErr) : Mailed base P Q (closeStart env err t) := by
  have hdead := (h.check .closeTwice (t.st.closed = false)).markDead
  have hset : Mailed base P Q (setClosed (Udx.markDead (t.check .closeTwice (t.st.closed = false)))) :=
    hdead.still rfl (fun _ => rfl) (.of_flight rfl) (fun _ => Bool.or_eq_true_iff.mpr (.inr rfl)) rfl
      ⟨[], rfl, fun _ _ _ => List.not_mem_nil⟩
  unfold Udx.closeStart closeBegin
  dsimp only
  split
  · have hwait : Mailed base P Q (streamTimewait env (setClosed (Udx.markDead
        (t.check .closeTwice (t.st.closed = false))))) := by
      refine ⟨hset.tx, hset.numbers, hset.relays, hset.copies, fun w hw => ?_, hset.unended, hset.wires, hset.vouched,
        hset.ack, hset.tree⟩
      rw [← Option.some.inj hw]
      exact ⟨(by decide : hasFlag 0 UDX_HEADER_DATA_OR_END = false), (by decide : hasFlag 0 UDX_HEADER_SACK = false),
        hset.ack⟩
    exact hwait.announce _ _
  · exact hset.announce _ _

/-- The number of a stream that needs none of the packets' changes. -/
theorem reseq {f : SeqNo → SeqNo} {span : ℕ} (hseq : t.st.dead = true ∨ t.peer.relayed = true) :
    Mailed base P Q (t.withTx fun tx => { tx with seq := f tx.seq, span := span }) := by
  have hset : t.tx.Settled { t.tx with seq := f t.tx.seq, span := span } :=
    ⟨Nat.le_refl _, fun _ _ => rfl, fun _ _ => rfl, fun _ _ => rfl⟩
  refine h.step ⟨h.tx.waits, h.tx.known, h.tx.clean, h.tx.old, h.tx.fresh, h.tx.data, h.tx.header, h.tx.held,
    h.tx.slot, h.tx.tail.queue, h.tx.tail.flag, h.tx.tail.sent⟩ hset (fun hd hr => ?_) rfl
    (fun _ hu => ⟨hu.queue, hu.flag, hu.sent⟩) (h.vouched.settled hset rfl h.vouched.flag h.vouched.acks)
    ⟨[], rfl, fun _ _ _ hmem => absurd hmem List.not_mem_nil⟩
  rcases hseq with hdead | hrelayed
  · exact absurd (hdead.symm.trans hd) nofun
  · exact absurd (hrelayed.symm.trans hr) nofun

theorem destroyStart (env : Env) : Mailed base P Q (destroyStart env t) := by
  have hdead := h.markDead
  have hset : Mailed base P Q (setDestroying t) :=
    hdead.still rfl (fun _ => rfl) (.of_flight rfl) (fun _ => Bool.or_eq_true_iff.mpr (.inl rfl)) rfl
      ⟨[], rfl, fun _ _ _ => List.not_mem_nil⟩
  have hreach : Mailed base P Q ((setDestroying t).note (.reached .destroySend (setDestroying t).toCore)) :=
    hset.note nofun
  have hseq : Mailed base P Q (((setDestroying t).note (.reached .destroySend (setDestroying t).toCore)).withTx
      Tx.advanceSeq) := hreach.reseq (f := fun x => x + 1) (.inl (Bool.or_eq_true_iff.mpr (.inl rfl)))
  unfold Udx.destroyStart
  dsimp only
  split
  · exact hset.closeStart env _
  · unfold destroySend queueCopy
    exact hseq.sendCopy env (k := .destroy) (.of_header (by nofun)
      (by decide : hasFlag UDX_HEADER_DESTROY UDX_HEADER_DATA_OR_END = false))
      (.of_header hseq.ack (by decide : hasFlag UDX_HEADER_DESTROY UDX_HEADER_SACK = false)) _

theorem closeUnlessDestroying (env : Env) (err : CloseErr) : Mailed base P Q (closeUnlessDestroying env err t) := by
  have hdrop : Mailed base P Q (dropTimewaitOnError err t) := by
    unfold dropTimewaitOnError
    split
    · exact h.quiet rfl rfl rfl rfl
    · exact h
  unfold Udx.closeUnlessDestroying
  dsimp only
  split
  · exact hdrop
  · exact hdrop.closeStart env err

theorem closeEnded (env : Env) : Mailed base P Q (closeEnded env t) := by
  unfold Udx.closeEnded checkEnded
  exact ((h.check _ _).check _ _).closeUnlessDestroying env _

theorem clearRelayTo : Mailed base P Q (clearRelayTo t) :=
  ⟨h.tx, h.numbers, nofun, h.copies, h.timewait, h.unended, h.wires, h.vouched, h.ack, h.tree⟩

theorem relayGone (env : Env) : Mailed base P Q (relayGone env t) := by
  have hclear := h.clearRelayTo
  have hdrop : Mailed base P Q (dropTimewait (Udx.clearRelayTo t)) := hclear.quiet rfl rfl rfl rfl
  unfold Udx.relayGone
  dsimp only
  split_ifs
  · exact hclear
  · exact hdrop.closeStart env .none
  · exact hdrop.destroyStart env

theorem countBytes (b bytes : ℕ) (cancelled : Bool) : Mailed base P Q (countBytes b bytes cancelled t) := by
  have hcheck : Mailed base P Q (checkBytes b bytes cancelled t) := by
    unfold checkBytes
    dsimp only
    split
    · exact ((h.check _ _).check _ _).check _ _
    · exact (((h.check _ _).check _ _).check _ _).check _ _
  unfold Udx.countBytes
  refine hcheck.still ?_ (fun _ => rfl) (.of_flight rfl) id rfl
      ⟨[], rfl, fun _ _ _ => List.not_mem_nil⟩
  exact (checkBytes b bytes cancelled t).tx.mail_setWbuf b (f := fun x => { x with
    bytesInflight := if cancelled then x.bytesInflight else x.bytesInflight - bytes
    bytesAcked := x.bytesAcked + bytes }) rfl

theorem releaseHandles : Mailed base P Q (releaseHandles t) := by
  have hun : Tx.Within { t.tx with outgoing := fun _ => none, outgoingLive := false } t.tx := by
    refine ⟨fun k hk => ?_, nofun⟩
    rcases hk with hk | hk | ⟨a, hk⟩
    · exact .inl hk
    · exact .inr (.inl hk)
    · cases hk
  have hdrop : Mailed base P Q (t.withRx fun rx => { rx with sackTree := [] }) :=
    ⟨h.tx, h.numbers, h.relays, h.copies, h.timewait, h.unended, h.wires, h.vouched, h.ack, nofun⟩
  unfold Udx.releaseHandles udxStreamReadStop
  split <;> exact hdrop.still rfl (fun _ => rfl) hun id rfl ⟨[], rfl, fun _ _ _ => List.not_mem_nil⟩

/-! ### Calls -/

theorem setRemoteAddr (socket : Option Socket) (addr : SockAddr) :
    Mailed base P Q (setRemoteAddr socket addr t).1 := by
  unfold Udx.setRemoteAddr
  dsimp only
  split_ifs <;> exact h.quiet rfl rfl rfl rfl

theorem connectBind (env : Env) (socket : Socket) (id : SeqNo) (addr : SockAddr) :
    Mailed base P Q (connectBind env socket id addr t).1 := by
  have hconn : Mailed base P Q ((t.withSt fun st => { st with connected := true }).withPeer fun peer =>
      { peer with remoteId := id, socket := some socket }) := h.quiet rfl rfl rfl rfl
  have haddr := hconn.setRemoteAddr (some socket) addr
  unfold Udx.connectBind
  dsimp only
  split
  · exact haddr.quiet rfl rfl rfl rfl
  · exact haddr

theorem connectKeepalive : Mailed base P Q (connectKeepalive t) := by
  have hnote : Mailed base P Q (t.note (.reached .connectKeepalive t.toCore)) := h.note nofun
  unfold Udx.connectKeepalive
  dsimp only
  split
  · exact hnote.quiet rfl rfl rfl rfl
  · exact hnote

theorem changeRemote (socket : Socket) (id : SeqNo) (cb : Bool) :
    Mailed base P Q (changeRemote socket id cb t).1 := by
  have hcapacity : ∀ {x : Stream}, Mailed base P Q x → Mailed base P Q (resetCapacity x) := by
    intro x hx
    unfold resetCapacity
    split
    · exact hx
    · exact hx.still rfl (fun _ => rfl) (.of_flight rfl) (fun hd => hd) rfl ⟨[], rfl, fun _ _ _ => List.not_mem_nil⟩
  unfold Udx.changeRemote
  dsimp only
  split
  · refine hcapacity ?_
    exact h.quiet (u := resetMtuStateMachine (deferRemoteChange _ cb (t.withPeer _))) rfl rfl rfl rfl
  · refine hcapacity ?_
    exact h.quiet (u := resetMtuStateMachine (t.withPeer _)) rfl rfl rfl rfl

theorem writeResult : Mailed base P Q (writeResult t).1 := by
  unfold Udx.writeResult
  split
  · exact h.quiet rfl rfl rfl rfl
  · exact h

theorem _udxStreamWrite (env : Env) (hopen : t.tx.Unended) (bufs : List (List UInt8)) (onAck e : Bool)
    (he : e = true → t.st.ending = true) : Mailed base P Q (_udxStreamWrite env bufs onAck e t) := by
  obtain ⟨hm, hset, hunended, hseq, hpkt, hreused⟩ := h.tx.queueWrite hopen bufs onAck e
  have hun := queueWrite_unqueued bufs onAck e t.tx
  have hqueue : Mailed base P Q (t.withTx fun tx => tx.queueWrite bufs onAck e) := by
    refine h.step hm hset (fun hd hr => ⟨hd, hr, fun hs => hs.kept hset hseq hpkt hreused⟩) rfl (fun ho _ => ?_)
      (h.vouched.settled hset hpkt ?_ fun k hk => ?_) ⟨[], rfl, fun _ _ _ hmem => absurd hmem List.not_mem_nil⟩
    · exact hunended (Bool.eq_false_iff.mpr fun hyes => absurd ((he hyes).symm.trans ho) nofun)
    · exact (congrArg Tx.pktHeaderFlag hun :) ▸ h.vouched.flag
    · show P ((t.tx.queueWrite bufs onAck e).pkts k).header.ack
      rw [show (t.tx.queueWrite bufs onAck e).pkts = t.tx.pkts from (congrArg Tx.pkts hun :)]
      exact h.vouched.acks k hk
  have hprobe : Mailed base P Q (queueWrite env bufs onAck e t) := by
    unfold queueWrite probeWindow
    dsimp only
    split
    · exact (hqueue.sendProbe env).quiet rfl rfl rfl rfl
    · exact hqueue
  unfold Udx._udxStreamWrite
  exact hprobe.send (.sendPackets (.refl _) env)

/-- One case for each call that never calls back. -/
theorem runCall_plain (env : Env) {c : Call} (hc : c.plain = true) :
    Mailed base P Q (runCall env Hook.quiet c t).1 := by
  cases c with
  | connect socket id addr => cases hc
  | send data onSend => cases hc
  | destroy => cases hc
  | teardown => cases hc
  | changeRemote socket id addr cb =>
    have haddr := h.setRemoteAddr t.peer.socket addr
    simp only [runCall, udxStreamChangeRemote]
    split_ifs
    · exact h
    · exact h
    · exact haddr
    · exact haddr.changeRemote _ _ _
  | write bufs onAck =>
    simp only [runCall, udxStreamWrite]
    split_ifs with hconn hending
    · exact h
    · exact h
    · exact h
    · exact (h._udxStreamWrite env (h.unended (Bool.eq_false_iff.mpr hending)) _ _ false
        fun hf => absurd hf Bool.false_ne_true).writeResult
  | writeEnd bufs onAck =>
    have hset : Mailed base P Q (setEnding t) :=
      ⟨h.tx, h.numbers, h.relays, h.copies, h.timewait, fun ho => Bool.noConfusion ho, h.wires, h.vouched, h.ack,
        h.tree⟩
    simp only [runCall, udxStreamWriteEnd]
    split_ifs with hconn hending
    · exact h
    · exact h
    all_goals
      have hopen : t.tx.Unended := h.unended (Bool.eq_false_iff.mpr hending)
      exact (hset._udxStreamWrite env hopen _ _ true fun _ => rfl).writeResult
  | setRwndMax size | firewall set | writeResume set => exact h.quiet rfl rfl rfl rfl
  | relayTo destinationClosed =>
    simp only [runCall, udxStreamRelayTo]
    split
    · exact h
    · exact ⟨h.tx, fun _ hr => Bool.noConfusion hr, fun _ => rfl, h.copies, h.timewait, h.unended, h.wires,
        h.vouched, h.ack, h.tree⟩
  | setKeepalive ms =>
    simp only [runCall, udxStreamSetKeepalive]
    split <;> exact h.quiet rfl rfl rfl rfl
  | recvStart =>
    simp only [runCall, udxStreamRecvStart]
    split <;> exact h.quiet rfl rfl rfl rfl
  | recvStop =>
    simp only [runCall, udxStreamRecvStop]
    split <;> exact h.quiet rfl rfl rfl rfl
  | readStart =>
    simp only [runCall, udxStreamReadStart]
    split <;> exact h.quiet rfl rfl rfl rfl
  | readStop =>
    simp only [runCall, udxStreamReadStop]
    split <;> exact h.quiet rfl rfl rfl rfl

/-! ### Timers -/

theorem rtoStart : Mailed base P Q (rtoStart t) := by
  have hnone : Mailed base P Q (t.withTm fun tm => { tm with pendingTimer := .none }) := h.quiet rfl rfl rfl rfl
  have hout : Mailed base P Q (((t.withTm fun tm => { tm with pendingTimer := .none }).check .rtoConnected
      (t.st.connected = true)).check .rtoOutstanding (t.tx.remoteAcked ≠ t.tx.seq)) :=
    (hnone.check _ _).check _ _
  unfold Udx.rtoStart
  dsimp only
  rw [Stream.check_tx, show (t.withTm fun tm => { tm with pendingTimer := .none }).tx = t.tx from rfl,
    show (t.withTm fun tm => { tm with pendingTimer := .none }).st = t.st from rfl]
  generalize ((t.withTm fun tm => { tm with pendingTimer := .none }).check .rtoConnected
      (t.st.connected = true)).check .rtoOutstanding (t.tx.remoteAcked ≠ t.tx.seq) = x at hout ⊢
  have henter : Mailed base P Q (rtoEnterLoss x) := by
    unfold rtoEnterLoss bbrSaveCwnd
    split <;> exact hout.quiet rfl rfl rfl rfl
  have hback : Mailed base P Q (rtoBackOff (rtoEnterLoss x)) := by
    have hcount : Mailed base P Q ((rtoEnterLoss x).withTm fun tm =>
        { tm with rtoCount := (tm.rtoCount + 1) % 2 ^ 8 }) := henter.quiet rfl rfl rfl rfl
    unfold rtoBackOff
    exact (hcount.check .rtoClosed _).quiet rfl rfl rfl rfl
  refine hback.still rfl (fun _ => rfl) ⟨fun k hk => ?_, fun _ _ hk => hk⟩ id rfl
    ⟨[], rfl, fun _ _ _ => List.not_mem_nil⟩
  rcases hk with hk | hk | hk
  · exact .inl hk
  · cases hk
  · exact .inr (.inr hk)

theorem rtoLook (reoWnd : ℕ) {k : ℕ} (hk : t.tx.Unacked k) : Mailed base P Q (rtoLook reoWnd k t) := by
  unfold Udx.rtoLook rtoKeepLost rtoMarkLost
  split
  · refine h.still rfl (fun _ => rfl) ⟨fun j hj => ?_, fun _ _ hj => hj⟩ id rfl
      ⟨[], rfl, fun _ _ _ => List.not_mem_nil⟩
    rcases hj with hj | hj | hj
    · exact .inl hj
    · rcases List.mem_append.mp hj with hj | hj
      · exact .inr (.inl hj)
      · exact List.mem_singleton.mp hj ▸ hk
    · exact .inr (.inr hj)
  · split
    · have hlost : Mailed base P Q (t.withCc fun cc => { cc with lost := cc.lost + 1 }) := h.quiet rfl rfl rfl rfl
      have hprobe := hlost.unprobeIfProbe k
      obtain ⟨hflight, -⟩ := unprobeIfProbe_flight k (t.withCc fun cc => { cc with lost := cc.lost + 1 })
      dsimp only
      split
      · exact hprobe
      · exact hprobe.markLost ((Tx.unacked_congr hflight k).mpr hk)
    · exact h

theorem rtoLoop (reoWnd n : ℕ) (seq : SeqNo) : Mailed base P Q (rtoLoop reoWnd n seq t) := by
  induction n generalizing seq t with
  | zero => exact h
  | succ n ih =>
    unfold Udx.rtoLoop
    split
    · exact ih h _
    · next k hk => exact ih (h.rtoLook reoWnd (.inr (.inr ⟨seq, hk⟩))) _

theorem rtoResend (env : Env) : Mailed base P Q (rtoResend env t) := by
  have hlooped := h.rtoLoop (rackUpdateReoWnd t) (t.tx.seq - t.tx.remoteAcked).toNat t.tx.remoteAcked
  unfold Udx.rtoResend
  dsimp only
  generalize Udx.rtoLoop (rackUpdateReoWnd t) (t.tx.seq - t.tx.remoteAcked).toNat t.tx.remoteAcked t = x
    at hlooped ⊢
  have hcwnd : Mailed base P Q (bbrOnRto (x.withCc fun cc => { cc with cwnd := x.tx.inflightQueue.length + 1 })) :=
    hlooped.quiet rfl rfl rfl rfl
  exact hcwnd.send (.sendPackets (.refl _) env)

/-! ### Acknowledgements -/

theorem ackTake (seq : SeqNo) (k : ℕ) (sack : Bool) : Mailed base P Q (ackTake seq k sack t) := by
  have hcheck := h.check .cirbufNull (t.tx.outgoingLive = true)
  unfold Udx.ackTake
  generalize t.check .cirbufNull (t.tx.outgoingLive = true) = x at hcheck ⊢
  have hbeside := takeAcked_besideCc seq k sack x
  have htx := takeAcked_tx seq k sack x
  refine hcheck.still ?_ (fun j => ?_) ?_ ?_ (congrArg (fun y => y.toCore.posts) hbeside :)
    ⟨[_], takeAcked_log seq k sack x, fun kind dest d hmem => ?_⟩
  · rw [htx, Tx.mail_removeAcked]
  · rw [htx, removeAcked_pkts]
  · rw [htx]
    exact .removeAcked
  · rw [takeAcked_st]
    exact id
  · cases List.mem_singleton.mp hmem

theorem chunkStage (c : Chunk) (rest : List Chunk) : Mailed base P Q (chunkStage c rest t) := by
  have hbytes : Mailed base P Q (ackBytes c rest t) := by
    have hacked : Mailed base P Q (setAcking rest (some c.wbuf)
        (t.withTx fun tx => { tx with bytesAcked := tx.bytesAcked + c.len })) :=
      h.still rfl (fun _ => rfl) (.of_flight rfl) id rfl
      ⟨[], rfl, fun _ _ _ => List.not_mem_nil⟩
    exact hacked.countBytes _ _ _
  unfold Udx.chunkStage
  dsimp only
  split
  · have hclear : Mailed base P Q (clearHighWatermark (ackBytes c rest t)) := hbytes.quiet rfl rfl rfl rfl
    exact hclear.announce _ _
  · exact hbytes

theorem advanceRemoteAcked (p : RxPacket) : Mailed base P Q (advanceRemoteAcked p t) := by
  unfold Udx.advanceRemoteAcked
  dsimp only
  split
  · exact h.still rfl (fun _ => rfl) (.of_flight rfl) id rfl
      ⟨[], rfl, fun _ _ _ => List.not_mem_nil⟩
  · exact h.quiet rfl rfl rfl rfl

theorem timerEnded : Mailed base P Q (timerEnded t) := by
  unfold Udx.timerEnded startKeepalive
  split_ifs <;> exact h.quiet rfl rfl rfl rfl

theorem bbrPacket (env : Env) (p : RxPacket) (delivered : ℕ) : Mailed base P Q (bbrPacket env p delivered t) := by
  have hrate : ∀ lost, Mailed base P Q (udxRateGen delivered lost t) := by
    intro lost
    obtain ⟨rs, limited, ts, rate, interval, sampled, hgen⟩ := udxRateGen_eq delivered lost t
    rw [hgen]
    exact h.quiet rfl rfl rfl rfl
  unfold Udx.bbrPacket
  dsimp only
  split
  · exact (hrate _).aside ((Aside.refl _).bbrMain env _)
  · exact h

/-! ### Received packets -/

theorem announceRead (data : List UInt8) : Mailed base P Q (announceRead data t) := by
  unfold Udx.announceRead
  split <;> exact h.note nofun

theorem takeNext (hack : P (t.rx.ack + 1)) : Mailed base P Q (takeNext t) :=
  ⟨h.tx, h.numbers, h.relays, h.copies, h.timewait, h.unended, h.wires, h.vouched, hack, h.tree⟩

/-- The next packet of the block being drained, for `on_read`. -/
theorem drainNext (rest : List OooBuf) (data : List UInt8)
    (hack : P (Udx.announceRead data (Udx.takeNext (setDraining rest t))).rx.ack) :
    Mailed base P Q (Udx.announceRead data (Udx.takeNext (setDraining rest t))) := by
  rw [announceRead_rx] at hack
  have hset : Mailed base P Q (setDraining rest t) := h.quiet rfl rfl rfl rfl
  exact (hset.takeNext hack).announceRead data

theorem setSackTree {tree : List SackBlock} (htree : ∀ b ∈ tree, Q (b.start, b.stop)) :
    Mailed base P Q (setSackTree tree t) :=
  ⟨h.tx, h.numbers, h.relays, h.copies, h.timewait, h.unended, h.wires, h.vouched, h.ack, htree⟩

theorem noteAccept (type : UInt8) (seq : SeqNo) (data : List UInt8) : Mailed base P Q (noteAccept type seq data t) :=
  h.note nofun

/-- The next packet in line, for `on_read`. -/
theorem acceptNext (type : UInt8) (seq : SeqNo) (data : List UInt8)
    (hack : P (Udx.announceRead data (Udx.takeNext (Udx.noteAccept type seq data t))).rx.ack) :
    Mailed base P Q (Udx.announceRead data (Udx.takeNext (Udx.noteAccept type seq data t))) := by
  rw [announceRead_rx] at hack
  exact ((h.noteAccept type seq data).takeNext hack).announceRead data

theorem holdPacket (type : UInt8) (seq : SeqNo) (data : List UInt8)
    (htree : ∀ b ∈ (holdPacket type seq data t).rx.sackTree, Q (b.start, b.stop)) :
    Mailed base P Q (holdPacket type seq data t) := by
  unfold Udx.holdPacket at htree ⊢
  split
  · exact h
  · next tree heq =>
    rw [heq] at htree
    exact (h.noteAccept type seq data).setSackTree htree

theorem derefPacket (k : ℕ) : Mailed base P Q (derefPacket k t) :=
  h.still (t.tx.mail_setPkt k (f := fun p => { p with refCount := p.refCount - 1 }) rfl)
    (t.tx.ack_setPkt k (f := fun p => { p with refCount := p.refCount - 1 }) rfl)
    ⟨fun _ hj => hj, fun _ _ hj => hj⟩ id rfl ⟨[], rfl, fun _ _ _ => List.not_mem_nil⟩

end

/-! ### Events -/

/-- The stream timer, where its expiry does not call back. -/
theorem fireTimer (env : Env) (h : Mailed base P Q t) (hq : Event.quiet t .timer = true)
    (hlog : .event .timer t.toCore ∈ t.log) (hcur : t.ctl.cursor = none) :
    Mailed base P Q (fireTimer env Hook.quiet t) := by
  unfold Udx.fireTimer
  cases htimer : t.tm.timer with
  | none => exact h
  | some x =>
    obtain ⟨timer, due⟩ := x
    have hclear : Mailed base P Q (clearTimer t) := h.quiet rfl rfl rfl rfl
    dsimp only
    split
    · exact h
    next hdue =>
    cases timer with
    | none => exact hclear
    | rto =>
      have hcount : (t.tm.rtoCount + 1) % 2 ^ 8 ≤ UDX_MAX_RTO_TIMEOUTS := by
        simp only [Event.quiet, htimer, Bool.or_eq_true, decide_eq_true_eq] at hq
        exact hq.resolve_left hdue
      simp only [runTimer]
      rw [udxRtoTimeout_quiet (s := clearTimer t) hcount]
      exact (hclear.rtoStart).rtoResend env
    | rackReo => exact hclear.send (.udxRackReoTimeout (.refl _) env hcur)
    | tlp =>
      exact hclear.send (.udxTlpTimeout (.refl _) env t.toCore rfl rfl hlog
        ⟨due, htimer, Nat.le_of_not_lt hdue⟩ hcur)
    | zwp =>
      have hcount : Mailed base P Q ((((((clearTimer t).check .zwpConnected ((clearTimer t).st.connected = true)).check
          .zwpRwnd (t.win.sendRwnd = 0)).check .zwpClosed (t.st.closed = false))).withTm fun tm =>
            { tm with zwpCount := (tm.zwpCount + 1) % 2 ^ 16 }) :=
        (((hclear.check _ _).check _ _).check _ _).quiet rfl rfl rfl rfl
      simp only [runTimer, udxZwpTimeout, Stream.check_win, Stream.check_st]
      exact (((hcount.sendProbe env).check _ _).check _ _).quiet rfl rfl rfl rfl
    | keepalive =>
      simp only [runTimer, udxKeepaliveTimeout]
      exact ((hclear.check _ _).sendProbe env).quiet rfl rfl rfl rfl

/-- libuv sends what it holds of a packet. -/
theorem uvSent (h : Mailed base P Q t) (i : ℕ) (hlog : .event (.uvSent i) t.toCore ∈ t.log) :
    Mailed base P Q (uvSent i t) := by
  unfold Udx.uvSent
  split
  · exact h
  next x hx =>
  split
  · exact h
  next hsent =>
  obtain ⟨hold, hof⟩ := h.tx.held x (List.mem_of_getElem? hx)
  obtain ⟨n, hgather, hoff⟩ := t.tx.gather_of rfl hof
  have hheld : ∀ y ∈ t.tx.uvq.set i { x with sent := true }, y.pkt < t.tx.pkt ∧ y.Of (t.tx.pkts y.pkt) := by
    intro y hy
    rcases List.mem_or_eq_of_mem_set hy with hy | rfl
    · exact h.tx.held y hy
    · exact ⟨hold, hof⟩
  have hset : t.tx.Settled { t.tx with uvq := t.tx.uvq.set i { x with sent := true } } :=
    ⟨Nat.le_refl _, fun _ _ => rfl, fun _ _ => rfl, fun _ _ => rfl⟩
  refine h.step ⟨h.tx.waits, h.tx.known, h.tx.clean, h.tx.old, h.tx.fresh, h.tx.data, h.tx.header, hheld,
    h.tx.slot, h.tx.tail.queue, h.tx.tail.flag, h.tx.tail.sent⟩ hset
    (fun hd hr => ⟨hd, hr, fun hs => hs.kept hset rfl rfl rfl⟩) rfl (fun _ hu => ⟨hu.queue, hu.flag, hu.sent⟩)
    (h.vouched.settled hset rfl h.vouched.flag h.vouched.acks)
    ⟨[.wire (.packet x.pkt) x.dest (t.tx.gather x.bufs)], rfl, fun kind dest d hmem => ?_⟩
  cases List.mem_singleton.mp hmem
  refine ⟨hgather ▸ .of_encode (h.vouched.acks x.pkt hold) (h.vouched.plain x.pkt hold) _, x.pkt, rfl, hold, _, n,
    hgather, rfl, h.tx.header x.pkt hold, ?_⟩
  by_cases hsame : x.bufs = (t.tx.pkts x.pkt).uvBufs x.pkt
  · exact .inl (hoff hsame (h.tx.clean x.pkt (Nat.le_of_lt hold)))
  · refine .inr ⟨_, List.mem_cons_of_mem _ hlog, ?_⟩
    simp [Entry.torn, hx, hsent, hsame]

/-- One case for each event that calls nothing back. -/
theorem runEvent_quiet (env : Env) (h : Mailed base P Q t) {e : Event} (hq : e.quiet t = true)
    (hlog : .event e t.toCore ∈ t.log) (hcur : t.ctl.cursor = none) :
    Mailed base P Q (runEvent env Hook.quiet e t) := by
  cases e with
  | call c => cases hq
  | recv d same => cases hq
  | relayClosed => cases hq
  | timer => exact h.fireTimer env hq hlog hcur
  | pacing =>
    simp only [runEvent, firePacing]
    have hclear : Mailed base P Q (clearPacing t) := h.quiet rfl rfl rfl rfl
    split
    · exact h
    · split
      · exact h
      · exact hclear.send (.pacingTimerTimeout (.refl _) env)
  | prepare =>
    simp only [runEvent, firePrepare]
    split
    · exact h.newPacket (_sendNewPacket_spec env false t)
    · exact h
  | uvSent i => exact h.uvSent i hlog
  | uvDone i =>
    simp only [runEvent, uvDone]
    split
    · exact h
    · next u hu =>
      have herase : Mailed base P Q (t.withTx fun tx => { tx with uvq := tx.uvq.eraseIdx i }) := by
        have hset : t.tx.Settled { t.tx with uvq := t.tx.uvq.eraseIdx i } :=
          ⟨Nat.le_refl _, fun _ _ => rfl, fun _ _ => rfl, fun _ _ => rfl⟩
        exact h.step ⟨h.tx.waits, h.tx.known, h.tx.clean, h.tx.old, h.tx.fresh, h.tx.data, h.tx.header,
          fun y hy => h.tx.held y (List.mem_of_mem_eraseIdx hy), h.tx.slot, h.tx.tail.queue, h.tx.tail.flag,
          h.tx.tail.sent⟩ hset
          (fun hd hr => ⟨hd, hr, fun hs => hs.kept hset rfl rfl rfl⟩) rfl (fun _ hu => ⟨hu.queue, hu.flag, hu.sent⟩)
          (h.vouched.settled hset rfl h.vouched.flag h.vouched.acks)
          ⟨[], rfl, fun _ _ _ hmem => absurd hmem List.not_mem_nil⟩
      exact herase.derefPacket u.pkt
  | copySent i =>
    simp only [runEvent, copySent]
    split
    · exact h
    · next u hu =>
      split
      · exact h
      · obtain ⟨hdataless, hvouches⟩ := h.copies u (List.mem_of_getElem? hu)
        have hwire := h.emit hdataless hvouches u.dest
        refine ⟨hwire.tx, hwire.numbers, hwire.relays, fun x hx => ?_, hwire.timewait, hwire.unended, hwire.wires,
          hwire.vouched, hwire.ack, hwire.tree⟩
        rcases List.mem_or_eq_of_mem_set hx with hx | rfl
        · exact h.copies x hx
        · exact ⟨hdataless, hvouches⟩
  | copyDone i =>
    have hdrop : Mailed base P Q (dropCopy i t) :=
      ⟨h.tx, h.numbers, h.relays, fun x hx => h.copies x (List.mem_of_mem_eraseIdx hx), h.timewait, h.unended,
        h.wires, h.vouched, h.ack, h.tree⟩
    simp only [runEvent, copyDone]
    simp only [Event.quiet] at hq
    split
    · exact h
    next u hu =>
    rw [hu] at hq
    cases hk : u.kind with
    | destroy => simp [hk] at hq
    | message onSend =>
      cases onSend with
      | true => simp [hk] at hq
      | false => exact hdrop
    | _ => exact hdrop
  | tick ms => exact h.quiet rfl rfl rfl rfl
  | timewaitTimeout =>
    simp only [runEvent, timewaitTimeout]
    split
    · exact h
    · split
      · exact h
      · exact ⟨h.tx, h.numbers, h.relays, h.copies, fun w hw => absurd hw.symm (Option.some_ne_none w), h.unended,
          h.wires, h.vouched, h.ack, h.tree⟩

end Mailed

/-! ### Moves -/

variable {env : Env} {base : SeqNo} {P : SeqNo → Prop} {Q : SeqNo × SeqNo → Prop} {s t : Stream}

theorem PlainMove.mailed (h : PlainMove env s t) (hs : Mailed base P Q s) : Mailed base P Q t := by
  cases h with
  | call c _ hc =>
    have hrun := (hs.note (e := .call c s.toCore) nofun).runCall_plain env hc
    unfold Udx.call
    exact hrun.note nofun
  | enter => exact hs.note nofun
  | result => exact hs.note nofun
  | returned => exact hs.note nofun
  | teardown => exact hs.quiet rfl rfl rfl rfl

theorem CallMove.mailed (h : CallMove env s t) (hs : Mailed base P Q s) : Mailed base P Q t := by
  cases h with
  | plain hm => exact hm.mailed hs
  | bind socket id addr =>
    exact (hs.note (e := .call (.connect socket id addr) s.toCore) nofun).connectBind env socket id addr
  | keepalive => exact hs.connectKeepalive
  | message data onSend =>
    unfold messageSend
    exact (hs.sendCopy env (k := .message onSend) (.of_encode (by nofun)
      (by decide : hasFlag UDX_HEADER_MESSAGE UDX_HEADER_DATA_OR_END = false) data) (.of_encode hs.ack
      (by decide : hasFlag UDX_HEADER_MESSAGE UDX_HEADER_SACK = false) data) _).announce _ _
  | deferAck => exact hs.quiet rfl rfl rfl rfl
  | ackOut => exact hs.ackOut env
  | closeEnded => exact hs.closeEnded env
  | dropTimewait => exact hs.quiet rfl rfl rfl rfl
  | destroyStart => exact hs.destroyStart env
  | close err => exact hs.closeStart env err
  | cancelPkt =>
    unfold Udx.cancelPkt
    exact (hs.check _ _).quiet rfl rfl rfl rfl
  | cancelSeq seq k =>
    refine hs.still rfl (fun _ => rfl) ⟨fun j hj => ?_, fun _ _ hj => Tx.setOutgoing_none_le hj⟩ id rfl
      ⟨[], rfl, fun _ _ _ => List.not_mem_nil⟩
    rcases hj with hj | hj | ⟨a, ha⟩
    · exact .inl hj
    · exact .inr (.inl hj)
    · exact .inr (.inr ⟨a, Tx.setOutgoing_none_le ha⟩)
  | cancelChunk c rest =>
    have hset : Mailed base P Q (setCancelling rest s) := hs.quiet rfl rfl rfl rfl
    exact (hset.countBytes _ _ _).announce _ _
  | cancelDone k => exact hs.derefPacket k
  | cancelQueued b rest _ hcl hb =>
    have hset : s.tx.Settled { s.tx with writeQueue := rest } :=
      ⟨Nat.le_refl _, fun _ _ => rfl, fun _ _ => rfl, fun _ _ => rfl⟩
    have hmem : ∀ x ∈ rest, x ∈ s.tx.writeQueue := fun x hx => by
      rw [hb]
      exact List.mem_cons_of_mem b hx
    have hnil : s.tx.writeQueue ≠ [] := by
      rw [hb]
      exact List.cons_ne_nil b rest
    have htail : Tx.Tail { s.tx with writeQueue := rest } :=
      ⟨fun l x r hl hx => hs.tx.tail.queue (b :: l) x r (hb.trans (congrArg (b :: ·) hl)) hx,
        fun hf => absurd (hs.tx.tail.flag hf) hnil, fun k hk he => absurd (hs.tx.tail.sent k hk he).1 hnil⟩
    have hshift : Mailed base P Q (shiftWriteQueue rest s) := by
      refine hs.step ⟨fun x hx => hs.tx.waits x (hmem x hx), hs.tx.known, hs.tx.clean, hs.tx.old, hs.tx.fresh,
        hs.tx.data, hs.tx.header, hs.tx.held, hs.tx.slot, htail⟩ hset
        (fun hd hr => ⟨hd, hr, fun hs => hs.kept hset rfl rfl rfl⟩) rfl
        (fun _ hu => ⟨fun x hx => hu.queue x (hmem x hx), hu.flag, hu.sent⟩)
        (hs.vouched.settled hset rfl hs.vouched.flag hs.vouched.acks)
        ⟨[], rfl, fun _ _ _ hmem => absurd hmem List.not_mem_nil⟩
    exact (hshift.countBytes _ _ _).announce _ _
  | release => exact hs.releaseHandles

theorem CallPath.mailed (h : CallPath env s t) (hs : Mailed base P Q s) : Mailed base P Q t := by
  induction h with
  | refl s => exact hs
  | tail _ hm ih => exact hm.mailed (ih hs)
  | connecting _ _ ih ih' =>
    have hopen : Mailed base P Q (setConnecting true _) := (ih hs).quiet rfl rfl rfl rfl
    exact (ih' hopen).quiet rfl rfl rfl rfl

theorem LoopMove.mailed (h : LoopMove env s t) (hs : Mailed base P Q s) : Mailed base P Q t := by
  cases h with
  | quiet e _ he hidle =>
    have hbegin : Mailed base P Q (beginEvent e s) := hs.note nofun
    have hrun := hbegin.runEvent_quiet env ((beginEvent_quiet e e s).trans he) List.mem_cons_self
      (Control.idle_fields hidle).1
    exact hrun.quiet rfl rfl rfl rfl
  | begin e => exact hs.note nofun
  | finish => exact hs.quiet rfl rfl rfl rfl
  | asked => exact hs.quiet rfl rfl rfl rfl
  | callback c => exact hs.note nofun
  | giveUp =>
    have hclear : Mailed base P Q (clearTimer s) := hs.quiet rfl rfl rfl rfl
    exact hclear.rtoStart.closeUnlessDestroying env _
  | copyGone i =>
    exact ⟨hs.tx, hs.numbers, hs.relays, fun x hx => hs.copies x (List.mem_of_mem_eraseIdx hx), hs.timewait,
      hs.unended, hs.wires, hs.vouched, hs.ack, hs.tree⟩
  | destroySent i =>
    have hdrop : Mailed base P Q (dropCopy i s) :=
      ⟨hs.tx, hs.numbers, hs.relays, fun x hx => hs.copies x (List.mem_of_mem_eraseIdx hx), hs.timewait,
        hs.unended, hs.wires, hs.vouched, hs.ack, hs.tree⟩
    exact hdrop.closeStart env _
  | relayGone => exact hs.relayGone env
  | relay seq _ hr =>
    have hnote : Mailed base P Q (s.note (.reached (.relay seq) s.toCore)) := hs.note nofun
    exact hnote.reseq (f := fun x => if seqCompare x seq < 0 then seq else x) (.inr (hs.relays hr))
  | timewait type =>
    unfold processTimewait
    split
    · next w hw =>
      split
      · obtain ⟨hdata, hsack, hack⟩ := hs.timewait w hw
        exact hs.sendCopy env (k := .timewait) (.of_header (by nofun) hdata) (.of_header hack hsack) _
      · exact hs
    · exact hs

theorem RecvMove.mailed (h : RecvMove s t) (hs : Mailed base P Q s) (hack : P t.rx.ack)
    (htree : ∀ b ∈ t.rx.sackTree, Q (b.start, b.stop)) : Mailed base P Q t := by
  cases h with
  | packet => exact hs.quiet rfl rfl rfl rfl
  | take p => exact hs.acceptNext _ _ _ hack
  | hold p => exact hs.holdPacket _ _ _ htree
  | endBit => exact hs.quiet rfl rfl rfl rfl
  | message => exact hs.note nofun
  | drainStart b rest =>
    have hset : Mailed base P Q (setSackTree rest s) := hs.setSackTree htree
    exact hset.quiet rfl rfl rfl rfl
  | drainTake b rest =>
    unfold Udx.drainTake at hack ⊢
    dsimp only at hack ⊢
    split
    · next hdata =>
      rw [if_pos hdata] at hack
      exact hs.drainNext rest b.data hack
    · next hdata =>
      have hset : Mailed base P Q (setDraining rest s) := hs.quiet rfl rfl rfl rfl
      rw [if_neg hdata] at hack
      exact hset.takeNext hack

theorem AckMove.mailed (h : AckMove env s t) (hs : Mailed base P Q s) : Mailed base P Q t := by
  cases h with
  | window p =>
    have hwin : Mailed base P Q (updateSendWindow p.h (setProcessing true s)) := by
      unfold updateSendWindow stopZwp
      split_ifs <;> exact hs.quiet rfl rfl rfl rfl
    unfold windowStage
    dsimp only
    split
    · have hchanged : Mailed base P Q (remoteChanged (updateSendWindow p.h (setProcessing true s))) :=
        hwin.quiet rfl rfl rfl rfl
      exact hchanged.announce _ _
    · exact hwin
  | ackInit p =>
    have hloss : Mailed base P Q (detectLossRepairedByLossProbe p.h.ack s) := hs.quiet rfl rfl rfl rfl
    have hreach : Mailed base P Q ((detectLossRepairedByLossProbe p.h.ack s).note (.reached (.episode p.h.ack)
        (detectLossRepairedByLossProbe p.h.ack s).toCore)) := hloss.note nofun
    exact hreach.quiet rfl rfl rfl rfl
  | ackAbsent p c =>
    have hnext : Mailed base P Q (setCursor (some (c + 1)) s) := hs.quiet rfl rfl rfl rfl
    exact (hnext.check .cirbufNull _).still rfl (fun _ => rfl) (.of_flight rfl) id rfl
      ⟨[], rfl, fun _ _ _ => List.not_mem_nil⟩
  | sackAbsent c => exact hs.check .cirbufNull _
  | ackTake p c k =>
    have hnext : Mailed base P Q (setCursor (some (c + 1)) s) := hs.quiet rfl rfl rfl rfl
    exact hnext.ackTake c k false
  | sackTake c k => exact hs.ackTake c k true
  | sackDead c k x rest => exact (hs.ackTake c k true).chunkStage x rest
  | chunk c rest => exact hs.chunkStage c rest
  | complete b sack =>
    have hclear : Mailed base P Q (clearAckDue s) := hs.quiet rfl rfl rfl rfl
    exact hclear.announce _ _
  | ackDone k =>
    have hderef := hs.derefPacket k
    unfold Udx.ackDone ackEnd
    split <;> exact hderef.quiet rfl rfl rfl rfl
  | ackDrop k => exact hs.derefPacket k
  | advance p => exact hs.advanceRemoteAcked p
  | advanceAll p =>
    have hset : Mailed base P Q (setSacksLeft [] (advanceRemoteAcked p s)) :=
      (hs.advanceRemoteAcked p).quiet rfl rfl rfl rfl
    have hcur : (advanceRemoteAcked p s).ctl.cursor = none := by
      unfold advanceRemoteAcked
      dsimp only
      split <;> rfl
    exact hset.send (.settleAcks (.refl _) env _ _ hcur)
  | advanceEnded p => exact (hs.advanceRemoteAcked p).timerEnded
  | advanceDead p => exact hs.advanceRemoteAcked p
  | sackNext => exact hs.quiet rfl rfl rfl rfl
  | settle p _ _ _ _ hcur => exact hs.send (.settleAcks (.refl s) env _ _ hcur)
  | finishPacket p delivered =>
    have hsend := (hs.bbrPacket env p delivered).send (.sendPackets (.refl _) env)
    unfold Udx.finishPacket
    generalize sendPackets env (bbrPacket env p delivered s) = x at hsend ⊢
    exact hsend.quiet rfl rfl rfl rfl

theorem Move.mailed (h : Move env s t) (hs : Mailed base P Q s) (hack : P t.rx.ack)
    (htree : ∀ b ∈ t.rx.sackTree, Q (b.start, b.stop)) : Mailed base P Q t := by
  cases h with
  | loop h => exact h.mailed hs
  | recv h => exact h.mailed hs hack htree
  | ack h => exact h.mailed hs

/-! ### Runs -/

variable {cfg : Config}

theorem init_mailed (env : Env) (cfg : Config) (hack : P cfg.ack) : Mailed cfg.seq P Q (Udx.init env cfg) := by
  refine ⟨⟨nofun, fun _ _ _ => nofun, fun _ _ _ => rfl, ?_, ?_, nofun, nofun, nofun, nofun, fun l b r hl => ?_,
    fun _ => rfl, nofun⟩, fun _ _ => ⟨⟨?_, nofun⟩, fun _ => rfl⟩, nofun, nofun, nofun,
    fun _ => ⟨nofun, (by decide : hasFlag 0 UDX_HEADER_END = false), nofun⟩,
    nofun, ⟨(by decide : hasFlag 0 UDX_HEADER_SACK = false), nofun, nofun⟩, hack, nofun⟩
  · rintro k (hk | hk | ⟨a, ha⟩)
    · cases hk
    · cases hk
    · cases ha
  · rintro ⟨c, hc, -⟩
    cases hc
  · exact absurd hl.symm (List.append_ne_nil_of_right_ne_nil l (List.cons_ne_nil b r))
  · exact (nth_zero _).symm

theorem Reach.mailed (h : Reach env cfg s) : Mailed cfg.seq (fun _ => True) (fun _ => True) s :=
  h.preserves (I := Mailed cfg.seq _ _) (init_mailed env cfg trivial)
    (fun hm hs => hm.mailed hs trivial fun _ _ => trivial) fun hp hs => hp.mailed hs

/-! ### What a packet's datagrams say -/

/-- A datagram of a packet, read as the peer reads it. -/
theorem read_carries {t : Tx} {k : ℕ} {d : List UInt8} {torn : Prop} (h : t.Carries k d torn) (hno : ¬torn) :
    k < t.pkt ∧ ∃ hd, parse d = some hd ∧ hd.type = (t.pkts k).header.type ∧ hd.seq = (t.pkts k).seq ∧
      payload hd d = some (t.payload k) := by
  obtain ⟨hk, hd, n, rfl, htype, hseq, hoff⟩ := h
  have hlen : (List.replicate n (0 : UInt8)).length = hd.dataOffset.toNat :=
    List.length_replicate.trans (hoff.resolve_right hno).symm
  exact ⟨hk, hd, parse_encode hd _, htype, hseq, payload_encode hd _ _ hlen⟩

theorem Mailed.carries_of_wire (hs : Mailed base P Q s) {k : ℕ} {dest : Dest} {d : List UInt8}
    (hd : .wire (.packet k) dest d ∈ s.log) : s.tx.Carries k d (∃ e ∈ s.log, e.torn = true) := by
  rcases (hs.wires _ _ _ hd).2 with hnone | ⟨j, hj, hcarries⟩
  · exact absurd rfl (hnone.1 k)
  · cases hj
    exact hcarries

theorem Reach.wire_payload (h : Reach env cfg s) (htorn : ∀ e ∈ s.log, e.torn = false) {k : ℕ} {dest : Dest}
    {d : List UInt8} (hd : .wire (.packet k) dest d ∈ s.log) :
    k < s.tx.pkt ∧ ∃ hdr, parse d = some hdr ∧ hdr.type = (s.tx.pkts k).header.type ∧
      hdr.seq = (s.tx.pkts k).seq ∧ payload hdr d = some (s.tx.payload k) ∧
      (s.st.dead = false → s.peer.relayed = false → hdr.seq = nth cfg.seq k) := by
  have hs := h.mailed
  have hno : ¬∃ e ∈ s.log, e.torn = true := fun ⟨e, he, ht⟩ => absurd ((htorn e he).symm.trans ht) nofun
  obtain ⟨hk, hdr, hparse, htype, hseq, hpay⟩ := read_carries (hs.carries_of_wire hd) hno
  refine ⟨hk, hdr, hparse, htype, hseq, hpay, fun hlive hfree => ?_⟩
  exact hseq.trans ((hs.numbers hlive hfree).1.pkts k hk)

/-- A packet of 1100 bytes leaves as an MTU probe, once more as the tail-loss
probe, and without the padding after a timeout. -/
def resendEvents : List Event :=
  [.call (.connect ⟨0, .inet⟩ 2 ⟨.inet, 1, [1, 2, 3, 4]⟩), .call (.write [[1]] false), .prepare,
    .recv (ackDatagramOf 1 1000000) true, .call (.write [List.replicate 1100 7] false), .prepare,
    .tick 3000, .timer, .tick 3000, .timer]

/-- The length, data offset and payload of the last datagram that was sent. -/
def lastWire (s : Stream) : Option (ℕ × ℕ × List UInt8) :=
  s.log.findSome? fun
    | .wire _ _ d => (parse d).bind fun h => (payload h d).map fun l => (d.length, h.dataOffset.toNat, l)
    | _ => none

theorem Reach.wire_payload_resend :
    let s := Udx.runEvents .free resendEvents (Udx.init .free numberedConfig)
    ∀ dest d, .wire (.packet 1) dest d ∈ s.log → ∃ hdr, parse d = some hdr ∧
      payload hdr d = some (List.replicate 1100 7) := by
  intro s dest d hd
  have hpayload : s.tx.payload 1 = List.replicate 1100 7 := by decide +kernel
  obtain ⟨-, hdr, hparse, -, -, hpay, -⟩ :=
    (Reach.runEvents .init resendEvents).wire_payload (by decide +kernel) hd
  exact ⟨hdr, hparse, hpayload ▸ hpay⟩

/-- What libuv held of the probe is sent when it is none any more. -/
example : lastWire (Udx.runEvents { Env.free with trySend := fun i => if i = 2 then .again else .sent }
    (resendEvents ++ [.uvSent 0]) (Udx.init .free numberedConfig)) =
      some (1172, 0, List.replicate 52 0 ++ List.replicate 1100 7) := by decide +kernel

end Udx
