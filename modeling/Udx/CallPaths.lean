/-
# API calls as paths of moves

Every API call is a path of call moves, for any hook whose callbacks make API
calls (`Tame`); on a closed stream it is a path of plain ones. The loops that
cancel what is outstanding leave nothing of it.

Key definitions: `Tame`, `Cancels`, `Clears`.
Key theorems: `closeStreamInternal_path`, `call_path`, `Layered.tame`.
-/
import Udx.Keeps

namespace Udx

open Serial

variable {env : Env} {cb : Hook}

/-- A hook whose callbacks make API calls: plain ones, on a closed stream. -/
structure Tame (env : Env) (cb : Hook) : Prop where
  path : ∀ c s, CallPath env s (cb c s)
  closed : ∀ c s, Closed s → PlainPath env s (cb c s)

namespace Tame

variable (ht : Tame env cb)
include ht

theorem invoke (c : Callback) (s : Stream) : CallPath env (s.note (.callback c)) (s.invoke cb c) :=
  (ht.path c _).tail (.plain (.returned c _))

theorem invokeIf (on : Bool) (c : Callback) (s : Stream) :
    CallPath env (s.announce on c) (s.invokeIf cb on c) := by
  unfold Stream.announce Stream.invokeIf
  split
  · exact ht.invoke c s
  · exact .refl s

theorem invokeIf_closed (on : Bool) (c : Callback) {s : Stream} (hs : Closed s) :
    PlainPath env (s.announce on c) (s.invokeIf cb on c) := by
  unfold Stream.announce Stream.invokeIf
  split
  · exact (ht.closed c (s.note (.callback c)) ⟨hs.closed, hs.disconnected⟩).tail (.returned c _)
  · exact .refl

end Tame

/-! ### Cancelling -/

/-- A closed stream cancels: `bufs` is what is left of the packet. -/
structure Cancels (env : Env) (bufs : List Chunk) (s t : Stream) : Prop where
  path : CallPath env s t
  closed : Closed t
  cancelling : t.ctl.cancelling = bufs
  pktCancelled : t.ctl.pktCancelled = s.ctl.pktCancelled
  outgoing : t.tx.outgoing = s.tx.outgoing
  seq : t.tx.seq = s.tx.seq
  remoteAcked : t.tx.remoteAcked = s.tx.remoteAcked
  writeQueue : t.tx.writeQueue = s.tx.writeQueue

theorem countBytes_st (b bytes : ℕ) (cancelled : Bool) (s : Stream) :
    (countBytes b bytes cancelled s).st = s.st := by
  unfold countBytes checkBytes
  dsimp only [Stream.withTx]
  split <;> simp

theorem countBytes_ctl (b bytes : ℕ) (cancelled : Bool) (s : Stream) :
    (countBytes b bytes cancelled s).ctl = s.ctl := by
  unfold countBytes checkBytes
  dsimp only [Stream.withTx]
  split <;> simp

theorem countBytes_tx (b bytes : ℕ) (cancelled : Bool) (s : Stream) :
    (countBytes b bytes cancelled s).tx = s.tx.countBytes b bytes cancelled := by
  unfold countBytes checkBytes
  dsimp only [Stream.withTx]
  split <;> simp

theorem Cancels.trans {bufs bufs' : List Chunk} {s t u : Stream} (h : Cancels env bufs s t)
    (h' : Cancels env bufs' t u) : Cancels env bufs' s u :=
  ⟨h.path.trans h'.path, h'.closed, h'.cancelling, h'.pktCancelled.trans h.pktCancelled,
    h'.outgoing.trans h.outgoing, h'.seq.trans h.seq, h'.remoteAcked.trans h.remoteAcked,
    h'.writeQueue.trans h.writeQueue⟩

theorem announceCancel_core (b : ℕ) (s : Stream) : (announceCancel b s).toCore = s.toCore := by
  unfold announceCancel Stream.announce
  dsimp only
  split <;> rfl

/-- One slice, or one buffer of the write queue, given up: the callback leaves
the stream as it was counted. -/
theorem cancelBytes_closed (ht : Tame env cb) (b bytes : ℕ) {s : Stream} (hs : Closed s) :
    let t := cancelBytes cb b bytes s
    CallPath env (announceCancel b (countBytes b bytes true s)) t ∧ Closed t ∧
      t.ctl = s.ctl ∧ t.tx = s.tx.countBytes b bytes true := by
  have hst := countBytes_st b bytes true s
  have hcl : Closed (countBytes b bytes true s) := ⟨hst ▸ hs.closed, hst ▸ hs.disconnected⟩
  have hpath : PlainPath env (announceCancel b (countBytes b bytes true s))
      (cancelBytes cb b bytes s) := ht.invokeIf_closed _ _ hcl
  have hann := announceCancel_core b (countBytes b bytes true s)
  obtain ⟨hclosed, htx, hctl⟩ := hpath.closed
    ⟨congrArg (fun c => c.st.closed) hann ▸ hcl.closed,
      congrArg (fun c => c.st.connected) hann ▸ hcl.disconnected⟩
  refine ⟨.ofPlain hpath, hclosed, ?_, ?_⟩
  · rw [hctl, congrArg Core.ctl hann, countBytes_ctl]
  · rw [htx, congrArg Core.tx hann, countBytes_tx]

theorem cancelChunk_cancels (ht : Tame env cb) {c : Chunk} {rest : List Chunk} {s : Stream}
    (hs : Closed s) (hc : s.ctl.cancelling = c :: rest) :
    Cancels env rest s (cancelBytes cb c.wbuf c.len (setCancelling rest s)) := by
  obtain ⟨hpath, hcl, hctl, htx⟩ := cancelBytes_closed ht c.wbuf c.len
    (s := setCancelling rest s) ⟨hs.closed, hs.disconnected⟩
  refine ⟨(CallPath.single (.cancelChunk c rest s hs.closed hc)).trans hpath, hcl, ?_, ?_, ?_, ?_,
    ?_, ?_⟩
  · rw [hctl]; rfl
  · rw [hctl]; rfl
  all_goals rw [htx]; rfl

theorem cancelBufs_cancels (ht : Tame env cb) (bufs : List Chunk) {s : Stream} (hs : Closed s)
    (hc : s.ctl.cancelling = bufs) : Cancels env [] s (cancelBufs cb bufs s) := by
  induction bufs generalizing s with
  | nil => exact ⟨.refl s, hs, hc, rfl, rfl, rfl, rfl, rfl⟩
  | cons c rest ih =>
    have h := cancelChunk_cancels ht hs hc
    exact h.trans (ih h.closed h.cancelling)

/-- A packet is cancelled, from where the loop over its slices begins. -/
theorem cancelPacket_cancels (ht : Tame env cb) (k : ℕ) {s : Stream} (hs : Closed s) :
    Cancels env [] (setCancelling (s.tx.pkts k).bufs s) (cancelPacket cb k s) := by
  have h := cancelBufs_cancels ht (s.tx.pkts k).bufs
    (s := setCancelling (s.tx.pkts k).bufs s) ⟨hs.closed, hs.disconnected⟩ rfl
  exact ⟨h.path.tail (.cancelDone k _ h.closed.closed h.cancelling),
    ⟨h.closed.closed, h.closed.disconnected⟩, h.cancelling, h.pktCancelled, h.outgoing, h.seq,
    h.remoteAcked, h.writeQueue⟩

/-- The packet in construction is cancelled. -/
theorem cancelPkt_cancels (ht : Tame env cb) {s : Stream} (hs : Closed s) :
    ∃ t, CallPath env s t ∧ Closed t ∧ t.ctl.cancelling = [] ∧ t.ctl.pktCancelled = true ∧
      t = cancelPacket cb s.tx.pkt (markPktCancelled
        (s.check .packetHeld ((s.tx.pkts s.tx.pkt).refCount = 1))) := by
  have hmark : Closed (markPktCancelled
      (s.check .packetHeld ((s.tx.pkts s.tx.pkt).refCount = 1))) := by
    refine ⟨?_, ?_⟩ <;> simp [markPktCancelled, Stream.withCtl, hs.closed, hs.disconnected]
  have h := cancelPacket_cancels ht s.tx.pkt hmark
  refine ⟨_, (CallPath.single (.cancelPkt s hs.closed)).trans ?_, h.closed, h.cancelling,
    h.pktCancelled, rfl⟩
  have hpkts : (markPktCancelled (s.check .packetHeld ((s.tx.pkts s.tx.pkt).refCount = 1))).tx =
      s.tx := by simp [markPktCancelled, Stream.withCtl]
  have hpath := h.path
  rw [hpkts] at hpath
  unfold cancelPkt
  simpa only [Stream.check_tx] using hpath

/-- A packet that is outstanding is cancelled. -/
theorem cancelSeq_cancels (ht : Tame env cb) {seq : SeqNo} {k : ℕ} {s : Stream} (hs : Closed s)
    (hk : s.tx.outgoing seq = some k) :
    let t := cancelPacket cb k (removeOutgoing seq s)
    CallPath env s t ∧ Closed t ∧ t.ctl.cancelling = [] ∧
      t.ctl.pktCancelled = s.ctl.pktCancelled ∧
      t.tx.outgoing = Function.update s.tx.outgoing seq none ∧ t.tx.seq = s.tx.seq ∧
      t.tx.remoteAcked = s.tx.remoteAcked := by
  have h := cancelPacket_cancels ht k (s := removeOutgoing seq s) ⟨hs.closed, hs.disconnected⟩
  exact ⟨(CallPath.single (.cancelSeq seq k s hs.closed hk)).trans h.path, h.closed, h.cancelling,
    h.pktCancelled, h.outgoing, h.seq, h.remoteAcked⟩

/-- What is left to clear: nothing of what is outstanding, from `seq` on. -/
structure Clears (env : Env) (s t : Stream) : Prop where
  path : CallPath env s t
  closed : Closed t
  cancelling : t.ctl.cancelling = []
  pktCancelled : t.ctl.pktCancelled = s.ctl.pktCancelled
  outgoing : ∀ a, s.tx.outgoing a = none → t.tx.outgoing a = none
  seq : t.tx.seq = s.tx.seq
  remoteAcked : t.tx.remoteAcked = s.tx.remoteAcked

theorem Clears.refl {s : Stream} (hs : Closed s) (hc : s.ctl.cancelling = []) : Clears env s s :=
  ⟨.refl s, hs, hc, rfl, fun _ => id, rfl, rfl⟩

theorem Clears.trans {s t u : Stream} (h : Clears env s t) (h' : Clears env t u) :
    Clears env s u :=
  ⟨h.path.trans h'.path, h'.closed, h'.cancelling, h'.pktCancelled.trans h.pktCancelled,
    fun a ha => h'.outgoing a (h.outgoing a ha), h'.seq.trans h.seq,
    h'.remoteAcked.trans h.remoteAcked⟩

/-- An offset in a window is its first, or one of the rest. -/
theorem window_cases {a seq : SeqNo} {n : ℕ} (h : (a - seq).toNat < n + 1) :
    a = seq ∨ (a - (seq + 1)).toNat < n := by
  by_cases ha : a = seq
  · exact .inl ha
  · right
    bv_omega

theorem clearPackets_clears (ht : Tame env cb) (n : ℕ) (seq : SeqNo) {s : Stream} (hs : Closed s)
    (hc : s.ctl.cancelling = []) (hn : n = (s.tx.seq - seq).toNat) :
    Clears env s (clearPackets cb n seq s) ∧
      ∀ a, (a - seq).toNat < n → (clearPackets cb n seq s).tx.outgoing a = none := by
  induction n generalizing seq s with
  | zero => exact ⟨.refl hs hc, fun a ha => absurd ha (Nat.not_lt_zero _)⟩
  | succ n ih =>
    have hne : seq ≠ s.tx.seq := by
      rintro rfl
      simp at hn
    have hlen : n = (s.tx.seq - (seq + 1)).toNat := by bv_omega
    have hstep : ∃ t, Clears env s t ∧ t.tx.outgoing seq = none ∧
        clearPackets cb (n + 1) seq s = clearPackets cb n (seq + 1) t := by
      rw [clearPackets, if_neg hne]
      cases hk : s.tx.outgoing seq with
      | none => exact ⟨s, .refl hs hc, hk, rfl⟩
      | some k =>
        obtain ⟨hpath, hcl, hcan, hpkt, hout, hseq, hr⟩ := cancelSeq_cancels ht hs hk
        refine ⟨_, ⟨hpath, hcl, hcan, hpkt, fun a ha => ?_, hseq, hr⟩, ?_, rfl⟩
        · rw [hout, Function.update_apply]
          split
          · rfl
          · exact ha
        · rw [hout, Function.update_self]
    obtain ⟨t, hst, hnone, heq⟩ := hstep
    obtain ⟨hclears, hall⟩ := ih (seq + 1) hst.closed hst.cancelling (by rw [hst.seq]; exact hlen)
    rw [heq]
    refine ⟨hst.trans hclears, fun a ha => ?_⟩
    rcases window_cases ha with rfl | ha
    · exact hclears.outgoing a hnone
    · exact hall a ha

theorem clearWriteQueue_clears (ht : Tame env cb) (n : ℕ) {s : Stream} (hs : Closed s)
    (hc : s.ctl.cancelling = []) (hn : n = s.tx.writeQueue.length) :
    Clears env s (clearWriteQueue cb n s) ∧ (clearWriteQueue cb n s).tx.writeQueue = [] := by
  induction n generalizing s with
  | zero => exact ⟨.refl hs hc, List.eq_nil_of_length_eq_zero hn.symm⟩
  | succ n ih =>
    rw [clearWriteQueue]
    cases hq : s.tx.writeQueue with
    | nil => simp [hq] at hn
    | cons b rest =>
      dsimp only
      have hshift : Closed (shiftWriteQueue rest s) := ⟨hs.closed, hs.disconnected⟩
      obtain ⟨hpath, hcl, hctl, htx⟩ := cancelBytes_closed ht b
        ((s.tx.wbufs b).buf.length - (s.tx.wbufs b).bytesAcked) hshift
      have hstep : Clears env s (cancelBytes cb b
          ((s.tx.wbufs b).buf.length - (s.tx.wbufs b).bytesAcked) (shiftWriteQueue rest s)) := by
        refine ⟨(CallPath.single (.cancelQueued b rest s hs.closed hq)).trans hpath, hcl, ?_, ?_,
          fun a ha => ?_, ?_, ?_⟩
        · rw [hctl]; exact hc
        · rw [hctl]; rfl
        · rw [htx]; exact ha
        all_goals rw [htx]; rfl
      have hlen : n = (cancelBytes cb b ((s.tx.wbufs b).buf.length - (s.tx.wbufs b).bytesAcked)
          (shiftWriteQueue rest s)).tx.writeQueue.length := by
        rw [htx]
        show n = rest.length
        simpa [hq] using hn
      obtain ⟨hclears, hnil⟩ := ih hstep.closed hstep.cancelling hlen
      exact ⟨hstep.trans hclears, hnil⟩

theorem clearOutgoingPackets_path (ht : Tame env cb) {s : Stream} (hs : Closed s) :
    CallPath env s (releaseHandles (clearOutgoingPackets cb s)) := by
  obtain ⟨t, hpath, hcl, hc, hpkt, ht'⟩ := cancelPkt_cancels ht hs
  unfold clearOutgoingPackets
  dsimp only
  rw [Stream.check_tx, ← ht']
  obtain ⟨hclears, hnone⟩ := clearPackets_clears ht _ _ hcl hc rfl
  obtain ⟨hqueue, hnil⟩ := clearWriteQueue_clears ht _ hclears.closed hclears.cancelling rfl
  have hall := hclears.trans hqueue
  refine (hpath.trans hall.path).tail (.release _ hall.closed.closed ?_ hall.cancelling hnil ?_)
  · rw [hall.pktCancelled]
    exact hpkt
  · intro a ha
    rw [hall.seq, hall.remoteAcked] at ha
    exact hqueue.outgoing a (hnone a ha)

/-! ### Closing -/

theorem closeBegin_closed (s : Stream) : Closed (closeBegin env s) := by
  unfold closeBegin
  dsimp only
  split <;> exact ⟨rfl, rfl⟩

theorem announce_closed {s : Stream} (hs : Closed s) (on : Bool) (c : Callback) :
    Closed (s.announce on c) := by
  unfold Stream.announce
  split
  · exact ⟨hs.closed, hs.disconnected⟩
  · exact hs

theorem closeStreamInternal_path (ht : Tame env cb) (err : CloseErr) (s : Stream)
    (hs : s.st.destroying = true ∨ s.st.connected = false ∨ s.st.allEnded = true ∨ err ≠ .none) :
    CallPath env s (closeStreamInternal env cb err s) := by
  have hbegin : Closed (closeBegin env s) := closeBegin_closed s
  have hcall := ht.invokeIf_closed (closeBegin env s).handlers.onClose (.close err) hbegin
  have hclosed := (hcall.closed (announce_closed hbegin _ _)).1
  exact ((CallPath.single (.close err s hs)).trans (.ofPlain hcall)).trans
    (clearOutgoingPackets_path ht hclosed)

/-- What `close_stream` and its callers run after its start. -/
theorem closeStart_path (ht : Tame env cb) (err : CloseErr) (s : Stream) :
    CallPath env (closeStart env err s) (closeStreamInternal env cb err s) := by
  have hbegin : Closed (closeBegin env s) := closeBegin_closed s
  have hcall := ht.invokeIf_closed (closeBegin env s).handlers.onClose (.close err) hbegin
  have hclosed := (hcall.closed (announce_closed hbegin _ _)).1
  exact (CallPath.ofPlain hcall).trans (clearOutgoingPackets_path ht hclosed)

theorem closeUnlessDestroying_path (ht : Tame env cb) (err : CloseErr) (s : Stream) :
    CallPath env (closeUnlessDestroying env err s) (closeStream env cb err s) := by
  unfold closeUnlessDestroying closeStream
  dsimp only
  split
  · exact .refl _
  · exact closeStart_path ht err _

theorem closeStreamInternal_closed (ht : Tame env cb) (err : CloseErr) (s : Stream) :
    (closeStreamInternal env cb err s).st.closed = true := by
  have hbegin : Closed (closeBegin env s) := closeBegin_closed s
  have hstart := announce_closed hbegin (closeBegin env s).handlers.onClose (.close err)
  exact (closeStart_path ht err s).keeps.closed hstart.closed

/-- `close_stream` closes the stream, or leaves it DESTROYING. -/
theorem closeStream_dead (ht : Tame env cb) (err : CloseErr) (s : Stream) :
    (closeStream env cb err s).st.dead = true := by
  unfold closeStream
  dsimp only
  split
  · next h => simp [Status.dead, h]
  · simp [Status.dead, closeStreamInternal_closed ht]

theorem closeStream_path (ht : Tame env cb) (err : CloseErr) (s : Stream)
    (hs : s.st.connected = false ∨ s.st.allEnded = true ∨ err ≠ .none) :
    CallPath env s (closeStream env cb err s) := by
  unfold closeStream dropTimewaitOnError
  dsimp only
  split_ifs with herr hd hd
  · exact .single (.dropTimewait s)
  · exact (CallPath.single (.dropTimewait s)).trans
      (closeStreamInternal_path ht err _ (.inr (.inr (.inr herr))))
  · exact .refl s
  · exact closeStreamInternal_path ht err s (.inr hs)

theorem destroyStart_path (ht : Tame env cb) (s : Stream) :
    CallPath env (destroyStart env s) (destroyConnected env cb s).1 := by
  unfold destroyStart destroyConnected
  dsimp only
  split
  · exact closeStart_path ht .none _
  · dsimp only
    split
    · exact .refl _
    · refine closeStreamInternal_path ht .none _ (.inl ?_)
      have hsend : Sends (((setDestroying s).note (.reached .destroySend (setDestroying s).toCore)).withTx
          Tx.advanceSeq) (destroySend env (setDestroying s)).1 := (Sends.refl _).sendCopy env _ _ _
      rw [hsend.st]
      rfl

theorem destroyConnected_path (ht : Tame env cb) (s : Stream) (hdead : s.st.dead = false)
    (hconn : s.st.connected = true) : CallPath env s (destroyConnected env cb s).1 :=
  (CallPath.single (.destroyStart s hdead hconn)).trans (destroyStart_path ht s)

theorem udxStreamDestroy_path (ht : Tame env cb) (s : Stream) :
    CallPath env s (udxStreamDestroy env cb s).1 := by
  unfold udxStreamDestroy
  dsimp only
  split_ifs with hdead hconn
  · exact .refl s
  · refine (CallPath.single (.dropTimewait s)).trans (closeStream_path ht _ _ (.inl ?_))
    simpa using hconn
  · refine (CallPath.single (.dropTimewait s)).trans (destroyConnected_path ht _ ?_ ?_)
    · exact Bool.eq_false_iff.mpr hdead
    · simpa using hconn

/-! ### Acknowledging and connecting -/

theorem sendAck_path (ht : Tame env cb) (s : Stream) : CallPath env s (sendAck env cb s) := by
  unfold sendAck
  dsimp only
  split
  · next hs => exact .single (.deferAck s hs)
  · next hs =>
    have hout : CallPath env s (ackOut env s) := .single (.ackOut s hs)
    have heof : CallPath env s (reportEof cb (sendCopy env .ack s.peer.dest (ackDatagram env s) s)) := by
      unfold ackOut at hout
      unfold reportEof
      dsimp only at hout ⊢
      split at hout
      · next h =>
        rw [if_pos h]
        exact hout.trans (ht.invokeIf _ _ _)
      · next h =>
        rw [if_neg h]
        exact hout
    unfold closeIfAllEnded
    split
    · next h =>
      exact (heof.tail (.closeEnded _ h)).trans (closeUnlessDestroying_path ht .none _)
    · exact heof

theorem connectAck_path (ht : Tame env cb) (s : Stream) : CallPath env s (connectAck env cb s) := by
  unfold connectAck
  split
  · exact .connecting (.refl s) (sendAck_path ht _)
  · exact .refl s

theorem sendCopy_core (env : Env) (k : Kind) (dest : Dest) (d : List UInt8) (s : Stream) :
    (sendCopy env k dest d s).toCore = { s.toCore with io := (sendCopy env k dest d s).io } := by
  unfold sendCopy
  dsimp only
  split
  · rfl
  · split <;> rfl
  · rfl

theorem reportEof_found (ht : Tame env cb) {s : Stream} (hc : s.ctl.connecting = true) :
    FoundBy s.toCore (reportEof cb s) := by
  unfold reportEof Stream.invokeIf
  split_ifs
  · right
    refine ⟨(cb .eof ((setEndedRemote s).note (.callback .eof))).toCore, List.mem_cons_self, ?_,
      rfl, rfl, rfl, rfl⟩
    exact (ht.path .eof _).keeps.connecting.trans hc
  · exact .inl ⟨rfl, rfl, rfl⟩
  · exact .inl ⟨rfl, rfl, rfl⟩

theorem sendAck_found (ht : Tame env cb) {s : Stream} (hs : s.peer.socket ≠ none)
    (hc : s.ctl.connecting = true) (hlive : (sendAck env cb s).st.dead = false) :
    FoundBy s.toCore (sendAck env cb s) := by
  unfold sendAck at hlive ⊢
  rw [if_neg hs] at hlive ⊢
  dsimp only at hlive ⊢
  have hcopy := sendCopy_core env .ack s.peer.dest (ackDatagram env s) s
  have hfound := reportEof_found ht (s := sendCopy env .ack s.peer.dest (ackDatagram env s) s)
    ((congrArg (fun c => c.ctl.connecting) hcopy).trans hc)
  unfold closeIfAllEnded at hlive ⊢
  split
  · next h =>
    rw [if_pos h, closeStream_dead ht] at hlive
    cases hlive
  · unfold FoundBy at hfound ⊢
    rw [congrArg Core.tx hcopy, congrArg Core.tm hcopy, congrArg Core.win hcopy] at hfound
    exact hfound

theorem connectAck_found (ht : Tame env cb) {s : Stream} (hs : s.peer.socket ≠ none)
    (hlive : (connectAck env cb s).st.dead = false) :
    FoundBy s.toCore (connectAck env cb s) := by
  unfold connectAck at hlive ⊢
  split
  · next hack =>
    rw [if_pos hack] at hlive
    exact sendAck_found ht (s := setConnecting true s) hs rfl hlive
  · exact .inl ⟨rfl, rfl, rfl⟩

theorem setRemoteAddr_core (socket : Option Socket) (addr : SockAddr) (s : Stream) :
    (setRemoteAddr socket addr s).1 =
      s.withPeer fun _ => (setRemoteAddr socket addr s).1.peer := by
  unfold setRemoteAddr
  dsimp only
  split_ifs <;> rfl

theorem setRemoteAddr_socket (socket : Option Socket) (addr : SockAddr) (s : Stream) :
    (setRemoteAddr socket addr s).1.peer.socket = s.peer.socket := by
  unfold setRemoteAddr
  dsimp only
  split_ifs <;> rfl

theorem connectBind_found (env : Env) (socket : Socket) (id : SeqNo) (addr : SockAddr) (s : Stream) :
    let t := (connectBind env socket id addr s).1
    t.tx = s.tx ∧ t.tm = s.tm ∧ t.win = s.win ∧ t.peer.socket = some socket := by
  have hcore := setRemoteAddr_core (some socket) addr
    ((s.withSt fun st => { st with connected := true }).withPeer fun peer =>
      { peer with remoteId := id, socket := some socket })
  have hsock := setRemoteAddr_socket (some socket) addr
    ((s.withSt fun st => { st with connected := true }).withPeer fun peer =>
      { peer with remoteId := id, socket := some socket })
  unfold connectBind
  dsimp only
  split
  · refine ⟨?_, ?_, ?_, hsock⟩
    · exact congrArg (fun x => x.tx) hcore
    · exact congrArg (fun x => x.tm) hcore
    · exact congrArg (fun x => x.win) hcore
  · refine ⟨?_, ?_, ?_, hsock⟩
    · exact congrArg (fun x => x.tx) hcore
    · exact congrArg (fun x => x.tm) hcore
    · exact congrArg (fun x => x.win) hcore

/-! ### API calls -/

theorem udxStreamConnect_path (ht : Tame env cb) (socket : Socket) (id : SeqNo) (addr : SockAddr)
    {s₀ s : Stream} (hs : s = s₀.note (.call (.connect socket id addr) s₀.toCore)) :
    CallPath env s₀ (udxStreamConnect env cb socket id addr s).1 := by
  have hlog : .call (.connect socket id addr) s.toCore ∈ s.log := by
    rw [hs]
    exact List.mem_cons_self
  have hst : s.st = s₀.st ∧ s.io = s₀.io := by
    rw [hs]
    exact ⟨rfl, rfl⟩
  have henter : (Entry.call (.connect socket id addr) s₀.toCore).sets = false → CallPath env s₀ s := by
    intro hset
    rw [hs]
    exact .single (.plain (.enter _ s₀ rfl hset))
  unfold Entry.sets at henter
  dsimp only at henter
  rw [← hst.1, ← hst.2] at henter
  unfold udxStreamConnect
  split_ifs with hdead hconn
  · exact henter (by simp [hdead])
  · exact henter (by simp [hconn])
  · have hlive : s.st.dead = false := by simp_all
    have hfree : s.st.connected = false := by simpa using hconn
    have hset : (Entry.call (.connect socket id addr) s₀.toCore).sets = true := by
      unfold Entry.sets
      dsimp only
      rw [← hst.1, ← hst.2]
      simp_all
    have hbind : CallPath env s₀ (connectBind env socket id addr s).1 := by
      rw [hs]
      exact .single (.bind socket id addr s₀ hset)
    obtain ⟨htx, htm, hwin, hsock⟩ := connectBind_found env socket id addr s
    have hack := hbind.trans (connectAck_path ht (connectBind env socket id addr s).1)
    dsimp only
    split
    · exact hbind
    · split
      · exact hack
      · next hend =>
        have hend : (connectAck env cb (connectBind env socket id addr s).1).st.dead = false := by
          simpa using hend
        have hfound := connectAck_found ht (by rw [hsock]; exact Option.some_ne_none _) hend
        unfold FoundBy at hfound
        rw [htx, htm, hwin] at hfound
        have hmem := (connectAck_path ht (connectBind env socket id addr s).1).keeps.mem_log
          (((Keeps.refl s).connectBind env socket id addr).mem_log hlog)
        exact hack.tail (.keepalive _ s.toCore socket id addr hend hmem hfree
          hlive hfound)

theorem udxStreamSend_path (ht : Tame env cb) (data : List UInt8) (onSend : Bool) (s : Stream) :
    CallPath env s (udxStreamSend env cb data onSend s).1 := by
  unfold udxStreamSend
  split
  · exact .refl s
  · next hconn =>
    exact (CallPath.single (.message data onSend s (by simpa using hconn))).trans
      (ht.invokeIf _ _ _)

/-- A call that never calls back does not depend on the hook. -/
theorem call_plain {c : Call} (hc : c.plain = true) (s : Stream) :
    call env cb c s = call env Hook.quiet c s := by
  cases c with
  | connect socket id addr => cases hc
  | send data onSend => cases hc
  | destroy => cases hc
  | teardown => cases hc
  | _ => rfl

theorem call_path (ht : Tame env cb) (c : Call) (s : Stream) : CallPath env s (call env cb c s) := by
  by_cases hc : c.plain = true
  · rw [call_plain hc]
    exact .single (.plain (.call c s hc))
  · have henter : (Entry.call c s.toCore).sets = false → CallPath env s (s.note (.call c s.toCore)) :=
      fun h => .single (.plain (.enter c s (Bool.eq_false_iff.mpr hc) h))
    have hrun : CallPath env s (runCall env cb c (s.note (.call c s.toCore))).1 := by
      cases c with
      | connect socket id addr => exact udxStreamConnect_path ht socket id addr rfl
      | send data onSend => exact (henter rfl).trans (udxStreamSend_path ht data onSend _)
      | destroy => exact (henter rfl).trans (udxStreamDestroy_path ht _)
      | teardown =>
        exact ((henter rfl).tail (.plain (.teardown _))).trans (udxStreamDestroy_path ht _)
      | _ => exact absurd rfl hc
    exact hrun.tail (.plain (.result _ _))

theorem destroy_dead {s : Stream} (hs : s.st.dead = true) :
    udxStreamDestroy env cb s = (s, .ok 0) := if_pos hs

/-- On a closed stream every call is a path of plain moves. -/
theorem call_closed (c : Call) {s : Stream} (hs : Closed s) : PlainPath env s (call env cb c s) := by
  by_cases hc : c.plain = true
  · rw [call_plain hc]
    exact .single (.call c s hc)
  · have hdead : s.st.dead = true := hs.dead
    have hset : (Entry.call c s.toCore).sets = false := by cases c <;> simp [Entry.sets, hdead]
    have hrun : PlainPath env (s.note (.call c s.toCore))
        (runCall env cb c (s.note (.call c s.toCore))).1 := by
      cases c with
      | connect socket id addr =>
        simp only [runCall, udxStreamConnect, Stream.note, hdead, Bool.true_or, if_true]
        exact .refl
      | send data onSend =>
        simp only [runCall, udxStreamSend, Stream.note, hs.disconnected, Bool.not_false, if_true]
        exact .refl
      | destroy =>
        rw [runCall, destroy_dead (s := s.note (.call .destroy s.toCore)) hdead]
      | teardown =>
        rw [runCall, destroy_dead (s := setTeardown (s.note (.call .teardown s.toCore))) hdead]
        exact .single (.teardown _)
      | _ => exact absurd rfl hc
    exact (Relation.ReflTransGen.head (.enter c s (Bool.eq_false_iff.mpr hc) hset) hrun).tail (.result _ _)

theorem Calls.path (ht : Tame env cb) {s t : Stream} (h : Calls env cb s t) : CallPath env s t := by
  induction h with
  | refl => exact .refl s
  | tail _ hc ih =>
    obtain ⟨c, rfl⟩ := hc
    exact ih.trans (call_path ht c _)

theorem Calls.plainPath {s t : Stream} (h : Calls env cb s t) (hs : Closed s) :
    PlainPath env s t := by
  induction h with
  | refl => exact .refl
  | tail _ hc ih =>
    obtain ⟨c, rfl⟩ := hc
    exact ih.trans (call_closed c (ih.closed hs).1)

/-- The hooks of a run are tame, at every depth. -/
theorem Layered.tame (h : Layered env cb) : Tame env cb := by
  induction h with
  | quiet => exact ⟨fun _ s => .refl s, fun _ _ _ => .refl⟩
  | reacts _ hcalls ih =>
    exact ⟨fun c s => (hcalls c s).path ih, fun c s hs => (hcalls c s).plainPath hs⟩

end Udx
