/-
# Events as paths of moves

Every event is a path of moves and calls, for any hook whose callbacks make
API calls. What holds at first and along every move and call holds in every
reachable state (`Reach.preserves`).

Key definitions: `Carries`.
Key theorems: `processPacket_path`, `step_path`, `Reach.preserves`.
-/
import Udx.AckPaths

namespace Udx

open Serial

variable {env : Env} {cb : Hook}

/-! ### From the send window on -/

/-- The datagram is still as it was read, and nothing of it acknowledged. -/
structure Carries (p : RxPacket) (s : Stream) : Prop where
  packet : s.ctl.packet = some p
  prior : p.priorRemoteAcked = s.tx.remoteAcked
  advanced : p.ackAdvanced = decide (seqDiff p.h.ack s.tx.remoteAcked > 0)
  delivered : p.delivered = s.cc.delivered
  cursor : s.ctl.cursor = none
  unacking : Unacking s

theorem Carries.keeps {p : RxPacket} {s t : Stream} (h : Carries p s) (hk : Keeps s t) :
    Carries p t := by
  refine ⟨hk.packet.trans h.packet, ?_, ?_, ?_, hk.cursor.trans h.cursor,
    hk.acking.trans h.unacking.1, hk.ackDue.trans h.unacking.2⟩
  · rw [hk.remoteAcked]
    exact h.prior
  · rw [hk.remoteAcked]
    exact h.advanced
  · rw [hk.delivered]
    exact h.delivered

theorem processLossState_path (ht : Tame env cb) {p : RxPacket} {s : Stream} (h : Carries p s)
    (hdead : s.st.dead = false) (hproc : s.ctl.processing = true) (hdrain : s.ctl.draining = []) :
    Path env (AckMove env) s (processLossState env cb p s) ∧
      Settled (processLossState env cb p s) := by
  have hinit : Path env (AckMove env) _ _ := .single (.ackInit p s h.packet hdead hproc
    h.prior h.advanced h.delivered h.cursor)
  have hloop := ackLoop_path ht (p.h.ack - p.priorRemoteAcked).toNat (s := ackInit p s)
    h.packet hdead (c := p.priorRemoteAcked) rfl h.unacking rfl
  unfold processLossState processAcks
  dsimp only
  rw [show startAcks p (leaveRecovery p.h.ack (detectLossRepairedByLossProbe p.h.ack s)) =
    ackInit p s from rfl]
  generalize ackLoop cb p.h.ack (p.h.ack - p.priorRemoteAcked).toNat p.priorRemoteAcked
    (ackInit p s) = r at hloop ⊢
  obtain ⟨t, stopped⟩ := r
  dsimp only at hloop ⊢
  have hpacket : t.ctl.packet = some p := hloop.stays.stays.packet.trans h.packet
  have hdrain' : t.ctl.draining = [] := hloop.stays.stays.draining.trans hdrain
  cases stopped with
  | true =>
    obtain ⟨hpath, hset⟩ := processEnded_path ht hpacket (hloop.stop rfl).2 hdrain'
      (hloop.stop rfl).1
    exact ⟨(hinit.trans hloop.path).trans hpath, hset⟩
  | false =>
    obtain ⟨hun, hlive, c, hc, hend⟩ := hloop.go rfl
    obtain ⟨hpath, hset⟩ := afterSacks_path ht hpacket hdrain'
      (hloop.stays.stays.processing.trans hproc) hlive hun hloop.stays.stays.sacksLeft hc hend
    exact ⟨(hinit.trans hloop.path).trans hpath, hset⟩

theorem updateSendWindow_keeps (h : Header) (s : Stream) : Keeps s (updateSendWindow h s) := by
  have hstop : Keeps s (stopZwp h.rwnd.toNat s) := by
    unfold stopZwp
    split
    · exact .sends (Sends.refl s).streamTimerStop
    · exact .refl s
  unfold updateSendWindow
  split
  · exact hstop.withWin _
  · exact .refl s

theorem processAck_path (ht : Tame env cb) {p : RxPacket} {s : Stream} (h : Carries p s)
    (hdead : s.st.dead = false) (hproc : s.ctl.processing = false) (hdrain : s.ctl.draining = []) :
    Path env (AckMove env) s (processAck env cb p s) ∧ Settled (processAck env cb p s) := by
  unfold processAck
  split
  · exact ⟨.refl s, h.cursor, .inr ⟨h.unacking.1, h.unacking.2, hdrain, .inl hproc⟩⟩
  next hack =>
  have hproc' : Carries p (setProcessing true s) :=
    ⟨h.packet, h.prior, h.advanced, h.delivered, h.cursor, h.unacking⟩
  have hwin := updateSendWindow_keeps p.h (setProcessing true s)
  have hmove : Path env (AckMove env) _ _ := .single
    (.window p s h.packet hdead hack hdrain)
  unfold windowStage at hmove
  unfold processRemoteChange
  dsimp only at hmove ⊢
  split at hmove
  · next hchange =>
    rw [if_pos hchange]
    have hpeer : Keeps (setProcessing true s) ((remoteChanged (updateSendWindow p.h
        (setProcessing true s))).invokeIf cb (updateSendWindow p.h
        (setProcessing true s)).handlers.onRemoteChanged .remoteChanged) := by
      have hk : Keeps (setProcessing true s) (remoteChanged (updateSendWindow p.h
          (setProcessing true s))) := hwin.withPeer rfl
      exact (hk.announce _ _).trans (ht.invokeIf _ _ _).keeps
    have hcall := hmove.call (ht.invokeIf _ _ _)
    generalize (remoteChanged (updateSendWindow p.h (setProcessing true s))).invokeIf cb
      (updateSendWindow p.h (setProcessing true s)).handlers.onRemoteChanged .remoteChanged = t
      at hpeer hcall ⊢
    have hc := hproc'.keeps hpeer
    split
    · next hd => exact ⟨hcall, hc.cursor, .inl hd⟩
    · next hd =>
      obtain ⟨hpath, hset⟩ := processLossState_path ht hc (Bool.eq_false_iff.mpr hd)
        (hpeer.processing.trans rfl) (hpeer.draining.trans hdrain)
      exact ⟨hcall.trans hpath, hset⟩
  · next hchange =>
    rw [if_neg hchange]
    have hlive : (updateSendWindow p.h (setProcessing true s)).st.dead = false := by
      have hst : (updateSendWindow p.h (setProcessing true s)).st = s.st := by
        unfold updateSendWindow stopZwp
        split_ifs <;> rfl
      rw [hst]
      exact hdead
    obtain ⟨hpath, hset⟩ := processLossState_path ht (hproc'.keeps hwin) hlive
      (hwin.processing.trans rfl) (hwin.draining.trans hdrain)
    exact ⟨hmove.trans hpath, hset⟩

/-! ### Taking what a datagram carries -/

theorem AckMove.toMove {s t : Stream} (h : AckMove env s t) : Move env s t := .ack h

/-- A payload passed to `on_read`, or dropped. -/
theorem readData_path (ht : Tame env cb) (data : List UInt8) (s : Stream) :
    CallPath env (announceRead data s) (readData cb data s) := by
  unfold announceRead readData
  split
  · exact ht.invoke _ _
  · exact .refl _

theorem announceRead_keeps (data : List UInt8) (s : Stream) : Keeps s (announceRead data s) := by
  unfold announceRead
  split
  · exact (Keeps.refl s).note (fun _ _ => by simp)
  · exact (Keeps.refl s).note (fun _ _ => by simp)

/-- The datagram stays as it was read where only the read side changes. -/
theorem Carries.of_rx {p : RxPacket} {s t : Stream} (h : Carries p s)
    (hc : { t.ctl with draining := [] } = { s.ctl with draining := [] })
    (hr : t.tx.remoteAcked = s.tx.remoteAcked) (hd : t.cc.delivered = s.cc.delivered) :
    Carries p t := by
  refine ⟨(congrArg (fun c => c.packet) hc).trans h.packet, ?_, ?_, ?_,
    (congrArg (fun c => c.cursor) hc).trans h.cursor,
    (congrArg (fun c => c.acking) hc).trans h.unacking.1,
    (congrArg (fun c => c.ackDue) hc).trans h.unacking.2⟩
  · rw [hr]
    exact h.prior
  · rw [hr]
    exact h.advanced
  · rw [hd]
    exact h.delivered

theorem drainLoop_path (ht : Tame env cb) {p : RxPacket} (bufs : List OooBuf) {s : Stream}
    (h : Carries p s) (hdead : s.st.dead = false) (hproc : s.ctl.processing = false)
    (hbufs : s.ctl.draining = bufs) :
    let t := drainLoop cb bufs s
    Path env (Move env) s t ∧ Carries p t ∧
      (t.st.dead = true ∨ t.ctl.draining = [] ∧ t.ctl.processing = false) := by
  induction bufs generalizing s with
  | nil => exact ⟨.refl s, h, .inr ⟨hbufs, hproc⟩⟩
  | cons b rest ih =>
    have hmove : Path env (Move env) _ _ := .single (.recv
      (.drainTake b rest s hdead hbufs))
    have htake : Carries p (takeNext (setDraining rest s)) := h.of_rx rfl rfl rfl
    unfold drainTake at hmove
    unfold drainLoop
    dsimp only at hmove ⊢
    split at hmove
    · next hdata =>
      rw [if_pos hdata]
      have hread := readData_path ht b.data (takeNext (setDraining rest s))
      have hk := (announceRead_keeps b.data (takeNext (setDraining rest s))).trans hread.keeps
      have hpath := hmove.call hread
      generalize readData cb b.data (takeNext (setDraining rest s)) = t at hk hpath ⊢
      have hc := htake.keeps hk
      split
      · next hd => exact ⟨hpath, hc, .inl hd⟩
      · next hd =>
        obtain ⟨hp, hc', hset⟩ := ih hc (Bool.eq_false_iff.mpr hd) (hk.processing.trans hproc)
          hk.draining
        exact ⟨hpath.trans hp, hc', hset⟩
    · next hdata =>
      rw [if_neg hdata]
      obtain ⟨hp, hc', hset⟩ := ih (s := takeNext (setDraining rest s)) htake hdead hproc rfl
      exact ⟨hmove.trans hp, hc', hset⟩

/-- What is left of a datagram whose payload was taken. -/
structure Taken (env : Env) (s t : Stream) : Prop where
  path : Path env (Move env) s t
  settled : Settled t

theorem Taken.trans {s t u : Stream} (h : Path env (Move env) s t) (h' : Taken env t u) :
    Taken env s u := ⟨h.trans h'.path, h'.settled⟩

theorem processAck_taken (ht : Tame env cb) {p : RxPacket} {s : Stream} (h : Carries p s)
    (hdead : s.st.dead = false) (hproc : s.ctl.processing = false) (hdrain : s.ctl.draining = []) :
    Taken env s (processAck env cb p s) := by
  obtain ⟨hpath, hset⟩ := processAck_path ht h hdead hproc hdrain
  exact ⟨hpath.mono .ack, hset⟩

theorem processReadQueue_path (ht : Tame env cb) {p : RxPacket} {s : Stream} (h : Carries p s)
    (hdead : s.st.dead = false) (hproc : s.ctl.processing = false) (hdrain : s.ctl.draining = []) :
    Taken env s (processReadQueue env cb p s) := by
  unfold processReadQueue
  split
  · exact processAck_taken ht h hdead hproc hdrain
  next block rest htree =>
  split
  · next hread =>
    obtain ⟨hshould, hstart⟩ := hread
    have hopen : s.st.endedRemote = false := by
      cases he : s.st.endedRemote
      · rfl
      · simp [Status.shouldRead, he] at hshould
    have hmove : Path env (Move env) _ _ := .single (.recv
      (.drainStart block rest s hdead hopen htree hstart hdrain))
    have hc : Carries p (setDraining block.packetQueue (setSackTree rest s)) := h.of_rx rfl rfl rfl
    obtain ⟨hpath, hc', hset⟩ := drainLoop_path ht block.packetQueue hc hdead hproc rfl
    dsimp only
    generalize drainLoop cb block.packetQueue (setDraining block.packetQueue (setSackTree rest s)) =
      t at hpath hc' hset ⊢
    split
    · next hd => exact ⟨hmove.trans hpath, hc'.cursor, .inl hd⟩
    · next hd =>
      obtain ⟨hdrain', hproc'⟩ := hset.resolve_left hd
      exact .trans (hmove.trans hpath)
        (processAck_taken ht hc' (Bool.eq_false_iff.mpr hd) hproc' hdrain')
  · exact processAck_taken ht h hdead hproc hdrain

theorem processMessage_path (ht : Tame env cb) {p : RxPacket} {s : Stream} (h : Carries p s)
    (hdead : s.st.dead = false) (hproc : s.ctl.processing = false) (hdrain : s.ctl.draining = []) :
    Taken env s (processMessage env cb p s) := by
  unfold processMessage
  split
  · have hmove : Path env (Move env) _ _ := .single (.recv (.message p.data s hdead))
    have hcall := ht.invoke (.recv p.data) s
    have hk : Keeps s (s.invoke cb (.recv p.data)) :=
      ((Keeps.refl s).note (fun _ _ => by simp)).trans hcall.keeps
    have hpath := hmove.call hcall
    generalize s.invoke cb (.recv p.data) = t at hk hpath ⊢
    have hc := h.keeps hk
    dsimp only
    split
    · next hd => exact ⟨hpath, hc.cursor, .inl hd⟩
    · next hd =>
      exact .trans hpath (processReadQueue_path ht hc (Bool.eq_false_iff.mpr hd)
        (hk.processing.trans hproc) (hk.draining.trans hdrain))
  · exact processReadQueue_path ht h hdead hproc hdrain

theorem processEndBits_path (ht : Tame env cb) {p : RxPacket} {s : Stream} (h : Carries p s)
    (hdead : s.st.dead = false) (hproc : s.ctl.processing = false) (hdrain : s.ctl.draining = [])
    (htaken : s.st.endedRemote = true ∨ seqCompare s.rx.ack p.h.seq ≤ 0 ∨
      s.rx.ack = p.h.seq + 1) : Taken env s (processEndBits env cb p s) := by
  have hrest : ∀ {x : Stream}, Carries p x → x.st.dead = false → x.ctl.processing = false →
      x.ctl.draining = [] → Taken env x
        (if hasFlag p.h.type UDX_HEADER_DESTROY = true then closeStream env cb .connReset x
          else processMessage env cb p x) := by
    intro x hc hd hpr hdr
    split
    · have hclose := closeStream_path ht .connReset x (.inr (.inr (by simp)))
      exact ⟨.ofCall hclose, hclose.keeps.cursor.trans hc.cursor,
        .inl (closeStream_dead ht .connReset x)⟩
    · exact processMessage_path ht hc hd hpr hdr
  unfold processEndBits
  dsimp only
  by_cases hend : hasFlag p.h.type UDX_HEADER_END = true
  · rw [if_pos hend]
    have hmove : Path env (Move env) _ _ := .single (.recv
      (.endBit p s h.packet hdead hend htaken))
    exact .trans hmove (hrest (x := setEndingRemote p.h.seq s) (h.of_rx rfl rfl rfl) hdead hproc
      hdrain)
  · rw [if_neg hend]
    exact hrest h hdead hproc hdrain

/-- `process_data_packet`, and what it leaves for the END bit. -/
theorem processDataPacket_path (ht : Tame env cb) {p : RxPacket} {s : Stream} (h : Carries p s)
    (hdead : s.st.dead = false) (hproc : s.ctl.processing = false) (hdrain : s.ctl.draining = [])
    (hread : s.st.endedRemote = false) (hseq : seqCompare s.rx.ack p.h.seq ≤ 0)
    (htype : hasFlag p.h.type UDX_HEADER_DATA_OR_END = true) :
    let t := processDataPacket cb p.h.type p.h.seq p.data s
    Path env (Move env) s t ∧ Carries p t ∧ t.ctl.processing = false ∧ t.ctl.draining = [] ∧
      (seqCompare t.rx.ack p.h.seq ≤ 0 ∨ t.rx.ack = p.h.seq + 1) := by
  unfold processDataPacket
  dsimp only
  split
  · next hfast =>
    obtain ⟨heq, hdata⟩ := hfast
    have hmove : Path env (Move env) _ _ := .single (.recv
      (.take p s h.packet hdead hread heq hdata))
    have hcall := readData_path ht p.data (takeNext (noteAccept p.h.type p.h.seq p.data s))
    have hk := (announceRead_keeps p.data
      (takeNext (noteAccept p.h.type p.h.seq p.data s))).trans hcall.keeps
    have hc : Carries p (takeNext (noteAccept p.h.type p.h.seq p.data s)) := h.of_rx rfl rfl rfl
    refine ⟨hmove.call hcall, hc.keeps hk, hk.processing.trans hproc, hk.draining.trans hdrain,
      .inr (hk.ack.trans ?_)⟩
    show s.rx.ack + 1 = p.h.seq + 1
    rw [heq]
  · next hslow =>
    have hmove : Path env (Move env) _ _ := .single (.recv
      (.hold p s h.packet hdead hread hseq htype hslow))
    refine ⟨hmove, ?_⟩
    unfold holdPacket
    split
    · exact ⟨h, hproc, hdrain, .inl hseq⟩
    · exact ⟨h.of_rx rfl rfl rfl, hproc, hdrain, .inl hseq⟩

theorem processPayload_path (ht : Tame env cb) {p : RxPacket} {s : Stream} (h : Carries p s)
    (hdead : s.st.dead = false) (hproc : s.ctl.processing = false) (hdrain : s.ctl.draining = []) :
    Taken env s (processPayload env cb p s) := by
  unfold processPayload
  split
  · next hseq =>
    split
    · next htake =>
      obtain ⟨htype, hshould⟩ := Bool.and_eq_true_iff.mp htake
      have hopen : s.st.endedRemote = false := by
        cases he : s.st.endedRemote
        · rfl
        · simp [Status.shouldRead, he] at hshould
      obtain ⟨hpath, hc, hproc', hdrain', hack⟩ :=
        processDataPacket_path ht h hdead hproc hdrain hopen hseq htype
      generalize processDataPacket cb p.h.type p.h.seq p.data s = t
        at hpath hc hproc' hdrain' hack ⊢
      dsimp only
      split
      · next hd => exact ⟨hpath, hc.cursor, .inl hd⟩
      · next hd =>
        exact .trans hpath (processEndBits_path ht hc (Bool.eq_false_iff.mpr hd) hproc' hdrain'
          (.inr hack))
    · exact processEndBits_path ht h hdead hproc hdrain (.inr (.inl hseq))
  · exact processMessage_path ht h hdead hproc hdrain

/-! ### Datagrams -/

/-- No datagram is being processed. -/
structure AtRest (s : Stream) : Prop where
  cursor : s.ctl.cursor = none
  unacking : Unacking s
  draining : s.ctl.draining = []
  processing : s.ctl.processing = false
  packet : s.ctl.packet = none

namespace AtRest

variable {s t : Stream}

theorem of_idle (h : s.ctl = s.ctl.idle) : AtRest s := by
  refine ⟨?_, ⟨?_, ?_⟩, ?_, ?_, ?_⟩
  · exact (congrArg (fun c => c.cursor) h).trans rfl
  · exact (congrArg (fun c => c.acking) h).trans rfl
  · exact (congrArg (fun c => c.ackDue) h).trans rfl
  · exact (congrArg (fun c => c.draining) h).trans rfl
  · exact (congrArg (fun c => c.processing) h).trans rfl
  · exact (congrArg (fun c => c.packet) h).trans rfl

theorem settled (h : AtRest s) : Settled s :=
  ⟨h.cursor, .inr ⟨h.unacking.1, h.unacking.2, h.draining, .inl h.processing⟩⟩

theorem keeps (h : AtRest s) (hk : Keeps s t) : AtRest t :=
  ⟨hk.cursor.trans h.cursor, ⟨hk.acking.trans h.unacking.1, hk.ackDue.trans h.unacking.2⟩,
    hk.draining.trans h.draining, hk.processing.trans h.processing, hk.packet.trans h.packet⟩

/-- A call made outside any datagram leaves nothing behind. -/
theorem taken (h : AtRest s) (hc : CallPath env s t) : Taken env s t :=
  ⟨.ofCall hc, (h.keeps hc.keeps).settled⟩

theorem loop (h : AtRest s) (hm : LoopMove env s t) (ht : t.ctl = s.ctl) : Taken env s t := by
  refine ⟨.single (.loop hm), AtRest.settled ?_⟩
  exact ⟨ht ▸ h.cursor, ⟨ht ▸ h.unacking.1, ht ▸ h.unacking.2⟩, ht ▸ h.draining,
    ht ▸ h.processing, ht ▸ h.packet⟩

end AtRest

theorem relayPacket_path (ht : Tame env cb) (h : Header) {s : Stream} (hs : AtRest s)
    (hr : s.peer.relayTo = true) (hdead : s.st.dead = false) :
    Taken env s (relayPacket env cb h s) := by
  have hmove : Taken env s (relaySeq h.seq s) := hs.loop (.relay h.seq s hr hdead hs.packet) rfl
  have hrest : AtRest (relaySeq h.seq s) :=
    ⟨hs.cursor, hs.unacking, hs.draining, hs.processing, hs.packet⟩
  unfold relayPacket
  dsimp only
  split
  · exact .trans hmove.path
      (hrest.taken (closeStream_path ht .connReset _ (.inr (.inr (by simp)))))
  · exact hmove

/-- A datagram that passed the firewall. -/
theorem processHeader_path (ht : Tame env cb) {h : Header} {d : List UInt8} {same : Bool}
    {pre : Core} {s : Stream} (hev : s.event? = some (.recv d same, pre))
    (hparse : parse d = some h) (hid : h.remoteId = s.peer.localId) (hs : AtRest s)
    (hdead : s.st.dead = false) : Taken env s (processHeader env cb h d s) := by
  unfold processHeader
  split
  · next hr => exact relayPacket_path ht h hs hr hdead
  next hr =>
  split
  · exact hs.taken (sendAck_path ht s)
  split
  · exact ⟨.refl s, hs.settled⟩
  · next data hpay =>
    have hmove : Path env (Move env) _ _ := .single (.recv
      (.packet h d data same pre s hev hparse hid hpay hdead (Bool.eq_false_iff.mpr hr)
        ⟨hs.cursor, hs.processing, hs.draining⟩))
    exact .trans hmove (processPayload_path ht
      ⟨rfl, rfl, rfl, rfl, hs.cursor, hs.unacking⟩ hdead hs.processing hs.draining)

theorem processTimewait_ctl (type : UInt8) (s : Stream) :
    (processTimewait env type s).ctl = s.ctl := by
  unfold processTimewait
  split
  · split
    · exact ((Sends.refl s).sendCopy env _ _ _).ctl
    · rfl
  · rfl

theorem processPacket_path (ht : Tame env cb) (d : List UInt8) (same : Bool) {pre : Core}
    {s : Stream} (hev : s.event? = some (.recv d same, pre)) (hs : AtRest s) :
    Taken env s (processPacket env cb d same s) := by
  unfold processPacket
  split
  · exact ⟨.refl s, hs.settled⟩
  next h hparse =>
  split_ifs with hid hclosed hdead hask
  · exact ⟨.refl s, hs.settled⟩
  · exact hs.loop (.timewait h.type s hclosed) (processTimewait_ctl h.type s)
  · exact ⟨.refl s, hs.settled⟩
  · have hcall := ht.invoke .firewall s
    have hk : Keeps s (s.invoke cb .firewall) :=
      ((Keeps.refl s).note (fun _ _ => by simp)).trans hcall.keeps
    have hpath : Path env (Move env) s (s.invoke cb .firewall).asked :=
      ((Path.single (Move.loop (.callback .firewall s (.inl rfl)))).call hcall).move
        (.loop (.asked _))
    dsimp only
    have hk' : Keeps s (s.invoke cb .firewall).asked := hk.withIo rfl
    generalize (s.invoke cb .firewall).asked = t at hpath hk' ⊢
    split
    · exact ⟨hpath, (hs.keeps hk').settled⟩
    · next hgo =>
      have hlive : t.st.dead = false := by
        cases hd : t.st.dead
        · rfl
        · simp [hd] at hgo
      exact .trans hpath (processHeader_path ht (hk'.event?.trans hev) hparse
        ((not_not.mp hid).trans hk'.localId.symm) (hs.keeps hk') hlive)
  · exact processHeader_path ht hev hparse (not_not.mp hid) hs (Bool.eq_false_iff.mpr hdead)

/-! ### Events -/

theorem beginEvent_event (e : Event) (s : Stream) :
    (beginEvent e s).event? = some (e, s.toCore) := rfl

/-- What an event does besides its ghost marks. -/
theorem step_taken {e : Event} {s : Stream} (hidle : s.ctl = s.ctl.idle)
    (h : Taken env (beginEvent e s) (runEvent env cb e (beginEvent e s))) :
    Path env (Move env) s (step env cb e s) :=
  ((Path.single (Move.loop (.begin e s hidle))).trans h.path).move
    (.loop (.finish _ h.settled.cursor h.settled.idle))

theorem rtoBackOff_spec (s : Stream) :
    (rtoBackOff s).tm.rtoCount = (s.tm.rtoCount + 1) % 2 ^ 8 ∧ (rtoBackOff s).ctl = s.ctl := by
  have h : Sends (s.withTm fun tm => { tm with rtoCount := (tm.rtoCount + 1) % 2 ^ 8 })
      (rtoBackOff s) := ((Sends.refl _).check _ _).streamTimerStart _ _
  exact ⟨h.rtoCount, h.ctl⟩

/-- `udx_rto_timeout` counts the timeout. -/
theorem rtoStart_spec (s : Stream) :
    (rtoStart s).tm.rtoCount = (s.tm.rtoCount + 1) % 2 ^ 8 ∧ (rtoStart s).ctl = s.ctl := by
  have hback : ∀ x : Stream, Sends s x →
      (rtoBackOff (rtoEnterLoss x)).tm.rtoCount = (s.tm.rtoCount + 1) % 2 ^ 8 ∧
        (rtoBackOff (rtoEnterLoss x)).ctl = s.ctl := by
    intro x hx
    have hloss : Sends s (rtoEnterLoss x) := hx.bbrSaveCwnd.withCc rfl
    obtain ⟨hcount, hctl⟩ := rtoBackOff_spec (rtoEnterLoss x)
    exact ⟨hcount.trans (by rw [hloss.rtoCount]), hctl.trans hloss.ctl⟩
  unfold rtoStart
  dsimp only
  exact hback _ ((((Sends.refl s).withTm rfl rfl).check _ _).check _ _)

/-- A retransmission timeout that does not give up calls nothing back. -/
theorem udxRtoTimeout_quiet {s : Stream} (h : (s.tm.rtoCount + 1) % 2 ^ 8 ≤ UDX_MAX_RTO_TIMEOUTS) :
    udxRtoTimeout env cb s = rtoResend env (rtoStart s) := by
  unfold udxRtoTimeout
  refine if_neg ?_
  rw [(rtoStart_spec _).1]
  omega

/-- Events that call back in no state like this one do not depend on the
hook. -/
theorem runEvent_quiet {e : Event} {s : Stream} (he : e.quiet s = true) :
    runEvent env cb e s = runEvent env Hook.quiet e s := by
  cases e with
  | call c => cases he
  | recv d same => cases he
  | relayClosed => cases he
  | timer =>
    simp only [runEvent, fireTimer]
    simp only [Event.quiet] at he
    split
    · rfl
    · next timer due htimer =>
      rw [htimer] at he
      split
      · rfl
      · next hdue =>
        cases timer with
        | rto =>
          have hcount : ((clearTimer s).tm.rtoCount + 1) % 2 ^ 8 ≤ UDX_MAX_RTO_TIMEOUTS := by
            simpa [hdue, clearTimer, Stream.withTm] using he
          simp only [runTimer]
          rw [udxRtoTimeout_quiet hcount, udxRtoTimeout_quiet hcount]
        | _ => simp only [runTimer]
  | copyDone i =>
    simp only [runEvent, copyDone]
    simp only [Event.quiet] at he
    split
    · rfl
    · next u hu =>
      rw [hu] at he
      cases hk : u.kind with
      | destroy => simp [hk] at he
      | message onSend =>
        cases onSend with
        | true => simp [hk] at he
        | false => rfl
      | _ => rfl
  | pacing => simp only [runEvent]
  | prepare => simp only [runEvent]
  | uvSent i => simp only [runEvent]
  | uvDone i => simp only [runEvent]
  | copySent i => simp only [runEvent]
  | tick ms => simp only [runEvent]
  | timewaitTimeout => simp only [runEvent]

theorem beginEvent_quiet (e e' : Event) (s : Stream) : e.quiet (beginEvent e' s) = e.quiet s := by
  cases e <;> rfl

theorem fireTimer_taken (ht : Tame env cb) {s : Stream} (hs : AtRest s)
    (he : Event.quiet s .timer = false) (hev : .event .timer s.toCore ∈ s.log) : Taken env s (fireTimer env cb s) := by
  simp only [Event.quiet] at he
  unfold fireTimer
  split
  · exact ⟨.refl s, hs.settled⟩
  next timer due htimer =>
  rw [htimer] at he
  cases timer with
  | rto =>
    simp only [Bool.or_eq_false_iff, decide_eq_false_iff_not] at he
    obtain ⟨hdue, hcount⟩ := he
    rw [if_neg hdue, runTimer]
    have hcount' : (rtoStart (clearTimer s)).tm.rtoCount > UDX_MAX_RTO_TIMEOUTS := by
      rw [(rtoStart_spec _).1]
      exact Nat.lt_of_not_le hcount
    unfold udxRtoTimeout
    dsimp only
    rw [if_pos hcount']
    have hmove : LoopMove env s _ := .giveUp s due htimer (Nat.lt_of_not_le hcount) hdue hev
    have hpath := closeUnlessDestroying_path ht .timedOut (rtoStart (clearTimer s))
    refine ⟨(Path.single (.loop hmove)).call hpath, ?_, .inl (closeStream_dead ht _ _)⟩
    have hstart : (rtoStart (clearTimer s)).ctl = s.ctl := (rtoStart_spec (clearTimer s)).2
    have hkeep := ((Keeps.refl (rtoStart (clearTimer s))).closeUnlessDestroying env .timedOut).trans
      hpath.keeps
    exact hkeep.cursor.trans (hstart ▸ hs.cursor)
  | none => cases he
  | rackReo => cases he
  | tlp => cases he
  | zwp => cases he
  | keepalive => cases he

theorem copyDone_taken (ht : Tame env cb) {s : Stream} (hs : AtRest s) (i : ℕ) :
    Taken env s (copyDone env cb i s) := by
  have hgone : Taken env s (dropCopy i s) := hs.loop (.copyGone i s) rfl
  unfold copyDone
  split
  · exact ⟨.refl s, hs.settled⟩
  next u hu =>
  dsimp only
  split
  · next hk =>
    have hmove : LoopMove env s _ := .destroySent i s (by simp [hu, hk])
    have hpath := closeStart_path ht .none (dropCopy i s)
    have hkeep := (((Keeps.refl s).withIo rfl).closeStart env .none).trans hpath.keeps
    exact ⟨(Path.single (.loop hmove)).call hpath, (hs.keeps hkeep).settled⟩
  · next onSend hk =>
    unfold Stream.invokeIf
    split
    · have hrest : AtRest (dropCopy i s) := ⟨hs.cursor, hs.unacking, hs.draining, hs.processing, hs.packet⟩
      have hcall := ht.invoke .sent (dropCopy i s)
      have hkeep := ((Keeps.refl (dropCopy i s)).note (e := .callback .sent)
        (fun _ _ => by simp)).trans hcall.keeps
      exact ⟨(hgone.path.move (.loop (.callback .sent _ (.inr rfl)))).call hcall,
        (hrest.keeps hkeep).settled⟩
    · exact hgone
  · exact hgone

theorem Keeps.relayGone {s t : Stream} (h : Keeps s t) : Keeps s (relayGone env t) := by
  have hclear : Keeps s (clearRelayTo t) := by
    unfold clearRelayTo
    exact h.withPeer rfl
  unfold Udx.relayGone
  dsimp only
  split_ifs
  · exact hclear
  · exact hclear.dropTimewait.closeStart env .none
  · exact hclear.dropTimewait.destroyStart env

theorem relayGone_path (ht : Tame env cb) (s : Stream) :
    CallPath env (relayGone env s) (udxStreamDestroy env cb (clearRelayTo s)).1 := by
  unfold relayGone udxStreamDestroy
  dsimp only
  split_ifs with hdead hconn
  · exact .refl _
  · have hlive : (dropTimewait (clearRelayTo s)).st.destroying = false := by
      have hd : (clearRelayTo s).st.dead = false := Bool.eq_false_iff.mpr hdead
      exact (Bool.or_eq_false_iff.mp hd).1
    have hclose : closeStream env cb .none (dropTimewait (clearRelayTo s)) =
        closeStreamInternal env cb .none (dropTimewait (clearRelayTo s)) := by
      unfold closeStream dropTimewaitOnError
      simp [hlive]
    dsimp only
    rw [hclose]
    exact closeStart_path ht .none _
  · exact destroyStart_path ht _

theorem relayClosed_taken (ht : Tame env cb) {s : Stream} (hs : AtRest s) :
    Taken env s (relayClosed env cb s) := by
  unfold relayClosed
  split
  · next hr =>
    have hpath := relayGone_path ht s
    exact ⟨(Path.single (.loop (.relayGone s hr))).call hpath,
      (hs.keeps ((Keeps.refl s).relayGone.trans hpath.keeps)).settled⟩
  · exact ⟨.refl s, hs.settled⟩

/-- Every event is a path of moves and calls. -/
theorem step_path (ht : Tame env cb) (e : Event) {s : Stream} (hidle : s.ctl = s.ctl.idle) :
    Path env (Move env) s (step env cb e s) := by
  have hs : AtRest (beginEvent e s) := .of_idle hidle
  by_cases he : e.quiet s = true
  · have hstep : step env cb e s = step env Hook.quiet e s := by
      unfold step
      rw [runEvent_quiet ((beginEvent_quiet e e s).trans he)]
    rw [hstep]
    exact .single (.loop (.quiet e s he hidle))
  refine step_taken hidle ?_
  cases e with
  | call c => exact hs.taken (call_path ht c _)
  | recv d same => exact processPacket_path ht d same (beginEvent_event _ s) hs
  | relayClosed => exact relayClosed_taken ht hs
  | copyDone i => exact copyDone_taken ht hs i
  | timer => exact fireTimer_taken ht hs (Bool.eq_false_iff.mpr he) (List.mem_cons_self ..)
  | pacing => exact absurd rfl he
  | prepare => exact absurd rfl he
  | uvSent i => exact absurd rfl he
  | uvDone i => exact absurd rfl he
  | copySent i => exact absurd rfl he
  | tick ms => exact absurd rfl he
  | timewaitTimeout => exact absurd rfl he

/-! ### Runs -/

variable {cfg : Config}

section

variable (env : Env) (cfg : Config)

@[simp] theorem init_log : (Udx.init env cfg).log = [] := rfl
@[simp] theorem init_st : (Udx.init env cfg).st = {} := rfl
@[simp] theorem init_tm : (Udx.init env cfg).tm = {} := rfl
@[simp] theorem init_ctl : (Udx.init env cfg).ctl = {} := rfl
@[simp] theorem init_mtu : (Udx.init env cfg).mtu = {} := rfl
@[simp] theorem init_tx : (Udx.init env cfg).tx =
    { seq := cfg.seq, remoteAcked := cfg.seq, pktCapacity := UDX_MTU_BASE - UDX_IPV6_HEADER_SIZE } :=
  rfl

end

theorem Reach.idle {s : Stream} (h : Reach env cfg s) : s.ctl = s.ctl.idle := by
  cases h with
  | init =>
    unfold Udx.init
    rfl
  | step => rfl

/-- What holds at first and along every move and call holds in every
reachable state. -/
theorem Reach.preserves {I : Stream → Prop} (hinit : I (Udx.init env cfg))
    (hmove : ∀ {s t}, Move env s t → I s → I t)
    (hcall : ∀ {s t}, CallPath env s t → I s → I t) {s : Stream} (h : Reach env cfg s) : I s := by
  induction h with
  | init => exact hinit
  | step e hs hcb ih => exact Path.preserves (I := I) hmove hcall (step_path hcb.tame e hs.idle) ih

/-! ### Runs of given events -/

/-- An environment that takes every datagram at once and refuses nothing. -/
def Env.free : Env where
  trySend _ := .sent
  uvSend _ := true
  readBufferSize _ := 0
  firewall _ := false
  linkMtu _ := none
  bbr _ _ := 1

/-- One event after the other, where the callbacks do nothing. -/
def runEvents (env : Env) (es : List Event) (s : Stream) : Stream :=
  es.foldl (fun s e => step env Hook.quiet e s) s

theorem Reach.runEvents {s : Stream} (h : Reach env cfg s) (es : List Event) :
    Reach env cfg (runEvents env es s) := by
  induction es generalizing s with
  | nil => exact h
  | cons e es ih => exact ih (.step e h .quiet)

end Udx
