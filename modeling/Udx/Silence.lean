/-
# Destroyed streams

What a stream still hands to its socket once it is DESTROYING or CLOSED. The
slow path of `udx_stream_destroy` stops no timer and no handle, and
`udx_stream_write` looks only whether the stream is connected, so a destroyed
stream can still send: `Entry.stirs` are the calls and expiries that make it.
In a run without one of them nothing more is sent and no assert of the send
path or of a timer fails.

Key definitions: `Entry.loud`, `Entry.stirs`, `Silent`, `Hush`.
Key theorems: `CallPath.hush`, `Move.hush`, `Reach.silent`.
-/
import Udx.Logs

namespace Udx

open Serial

/-! ### What a dead stream does -/

/-- The asserts of the send path and of the timer callbacks. -/
def Site.timed : Site → Bool
  | .sendDead | .armInflight | .armOutstanding | .armRto | .armClosed | .rearmPending
  | .tlpConnected | .rackTransmits | .rackSize | .rackClosed
  | .zwpConnected | .zwpRwnd | .zwpClosed | .zwpPending | .zwpQueued
  | .rtoConnected | .rtoOutstanding | .rtoClosed | .keepaliveIdle => true
  | _ => false

/-- A DATA or END packet or a probe is handed to the socket, or such an
assert fails. -/
def Entry.loud : Entry → Bool
  | .handed (.packet _) _ | .handed .probe _ => true
  | .failed a => a.timed
  | _ => false

def Entry.died : Entry → Bool
  | .dead => true
  | _ => false

/-- Nothing loud in the log is newer than the death of the stream. -/
def Silent : List Entry → Prop
  | [] => True
  | e :: log => (e.loud = true → log.any Entry.died = false) ∧ Silent log

instance instDecidableSilent : (log : List Entry) → Decidable (Silent log)
  | [] => .isTrue trivial
  | _ :: log => @instDecidableAnd _ _ inferInstance (instDecidableSilent log)

/-- `udx_tlp_timeout` has a probe to send. -/
def Core.probesLoss (c : Core) : Bool :=
  !c.cc.tlpInFlight && c.cc.tlpPermitted &&
    (decide (c.tx.writeQueue.length ≠ 0) || (tlpCandidate c.tx).isSome)

/-- The callback of the timer sends something, or fails an assert. -/
def Core.timerStirs (c : Core) : Timer → Bool
  | .none => false
  | .rto =>
    decide ((c.tm.rtoCount + 1) % 2 ^ 8 ≤ UDX_MAX_RTO_TIMEOUTS) || !c.st.connected ||
      decide (c.tx.remoteAcked = c.tx.seq) || c.st.closed
  | .tlp =>
    !c.st.connected || decide (c.tx.remoteAcked ≠ c.tx.seq) &&
      (c.probesLoss || decide (¬ (c.tm.pendingTimer = .rackReo ∨ c.tm.pendingTimer = .tlp)))
  | .rackReo | .zwp | .keepalive => true

/-- A call or an expiry that finds a dead stream and makes it send. -/
def Entry.stirs : Entry → Bool
  | .call (.write bufs _) c =>
    c.st.dead && c.st.connected && !c.st.ending && decide (bufs.length ≠ 0)
  | .call (.writeEnd ..) c => c.st.dead && c.st.connected && !c.st.ending
  | .event .timer c =>
    c.st.dead && c.tm.timer.any fun (timer, due) => decide (¬ due > c.io.now) && c.timerStirs timer
  | .event .pacing c => c.st.dead && c.tm.refillPacingTimer.any fun due => decide (¬ due > c.io.now)
  | .event .prepare c => c.st.dead && c.tm.pendingPacketPrepare
  | _ => false

/-! ### Stretches of a run -/

/-- The log has no such call or expiry. -/
def Calmed (log : List Entry) : Prop := ∀ e ∈ log, e.stirs = false

theorem Calmed.of_cons {e : Entry} {log : List Entry} (h : Calmed (e :: log)) : Calmed log :=
  fun _ hx => h _ (List.mem_cons_of_mem _ hx)

/-- The dead stay silent, and the log knows them. -/
structure Hushed (s : Stream) : Prop where
  silent : Silent s.log
  dead : s.log.any Entry.died = true → s.st.dead = true

/-- From `s` to `t` the log grows, and a stream that was silent still is. -/
structure Hush (s t : Stream) : Prop where
  log : ∃ l, t.log = l ++ s.log
  hushed : Calmed t.log → Hushed s → Hushed t

theorem Silent.of_live : {log : List Entry} → log.any Entry.died = false → Silent log
  | [], _ => trivial
  | e :: log, h => by
    have hlog : log.any Entry.died = false := by
      simp only [List.any_cons, Bool.or_eq_false_iff] at h
      exact h.2
    exact ⟨fun _ => hlog, .of_live hlog⟩

namespace Hushed

variable {s : Stream}

theorem alive (h : Hushed s) (hlive : s.st.dead = false) : s.log.any Entry.died = false := by
  cases hd : s.log.any Entry.died with
  | false => rfl
  | true => rw [h.dead hd] at hlive; cases hlive

end Hushed

namespace Hush

variable {s t u : Stream}

theorem refl (s : Stream) : Hush s s := ⟨⟨[], rfl⟩, fun _ => id⟩

theorem calmed (h : Hush s t) (hc : Calmed t.log) : Calmed s.log := by
  obtain ⟨l, hl⟩ := h.log
  exact fun e he => hc e (hl ▸ List.mem_append_right l he)

theorem trans (h : Hush s t) (h' : Hush t u) : Hush s u := by
  obtain ⟨l, hl⟩ := h.log
  obtain ⟨l', hl'⟩ := h'.log
  refine ⟨⟨l' ++ l, by rw [hl', hl, List.append_assoc]⟩, fun hc hs => ?_⟩
  exact h'.hushed hc (h.hushed (h'.calmed hc) hs)

theorem mem (h : Hush s t) {e : Entry} (he : e ∈ s.log) : e ∈ t.log := by
  obtain ⟨l, hl⟩ := h.log
  rw [hl]
  exact List.mem_append_right _ he

section

variable (h : Hush s t)
include h

/-- A change that logs nothing and wakes nobody. -/
theorem still (hl : u.log = t.log) (hd : t.st.dead = true → u.st.dead = true) : Hush s u := by
  refine h.trans ⟨⟨[], hl⟩, fun _ ht => ⟨hl ▸ ht.silent, fun hx => hd (ht.dead ?_)⟩⟩
  rw [← hl]
  exact hx

theorem note {e : Entry} (hdied : e.died = false)
    (hloud : t.st.dead = true → Calmed (e :: t.log) → e.loud = false) : Hush s (t.note e) := by
  refine h.trans ⟨⟨[e], rfl⟩, fun hc ht => ⟨⟨fun hl => ?_, ht.silent⟩, fun hx => ?_⟩⟩
  · refine ht.alive (Bool.eq_false_iff.mpr fun hd => ?_)
    rw [hloud hd hc] at hl
    cases hl
  · have hx' : (e :: t.log).any Entry.died = true := hx
    rw [List.any_cons, hdied, Bool.false_or] at hx'
    exact ht.dead hx'

theorem soft {e : Entry} (hdied : e.died = false) (hloud : e.loud = false) : Hush s (t.note e) :=
  h.note hdied fun _ _ => hloud

theorem check {a : Site} {p : Prop} [Decidable p]
    (hp : a.timed = true → t.st.dead = true → Calmed t.log → p) : Hush s (t.check a p) := by
  unfold Stream.check
  split
  · exact h
  · next hnot =>
    refine h.note rfl fun hd hc => ?_
    exact Bool.eq_false_iff.mpr fun hloud => hnot (hp hloud hd hc.of_cons)

/-- An assert of neither the send path nor a timer. -/
theorem checkSoft (a : Site) (p : Prop) [Decidable p] (ha : a.timed = false) :
    Hush s (t.check a p) :=
  h.check fun hx => by rw [ha] at hx; cases hx

theorem announce (on : Bool) (c : Callback) : Hush s (t.announce on c) := by
  unfold Stream.announce
  split
  · exact h.soft rfl rfl
  · exact h

/-- A live stream may log anything but its death. -/
theorem grow (hlive : Calmed t.log → t.st.dead = false)
    (hl : ∃ l, u.log = l ++ t.log ∧ ∀ e ∈ l, e.died = false) : Hush s u := by
  obtain ⟨l, hl, hdied⟩ := hl
  refine h.trans ⟨⟨l, hl⟩, fun hc ht => ?_⟩
  have hold := ht.alive (hlive fun e he => hc e (hl ▸ List.mem_append_right l he))
  have hnew : l.any Entry.died = false := by
    simpa [List.any_eq_false] using hdied
  have hall : u.log.any Entry.died = false := by
    rw [hl, List.any_append, hold, hnew]
    rfl
  refine ⟨.of_live hall, fun hx => ?_⟩
  rw [hall] at hx
  cases hx

/-- Only a live stream sends. -/
theorem sends (hlive : Calmed t.log → t.st.dead = false) (hs : Sends t u) : Hush s u := by
  obtain ⟨l, hl, hsending⟩ := hs.log
  refine h.grow hlive ⟨l, hl, fun e he => ?_⟩
  have hsend := hsending e he
  cases e with
  | dead => cases hsend
  | _ => rfl

/-- The stream becomes DESTROYING or CLOSED. -/
theorem die {f : Status → Status} (hf : (f t.st).dead = true) :
    Hush s ((markDead t).withSt f) := by
  refine h.trans ?_
  unfold markDead
  split
  · exact (refl t).still rfl fun _ => hf
  · next hnot =>
    refine ⟨⟨[.dead], rfl⟩, fun _ ht => ⟨⟨nofun, ht.silent⟩, fun _ => hf⟩⟩

end

/-! ### Calls -/

section

variable (h : Hush s t) (env : Env)
include h

theorem sendCopy {k : Kind} (hk : ∀ dest, (Entry.handed k dest).loud = false) (dest : Dest)
    (d : List UInt8) : Hush s (sendCopy env k dest d t) := by
  have hhand : Hush s (t.note (.handed k dest)) := h.soft rfl (hk dest)
  unfold Udx.sendCopy
  dsimp only
  split
  · exact (hhand.soft (e := .wire k dest d) rfl rfl).still rfl id
  · split <;> exact hhand.still rfl id
  · exact hhand.still rfl id

theorem setRemoteAddr (socket : Option Socket) (addr : SockAddr) :
    Hush s (setRemoteAddr socket addr t).1 := by
  unfold Udx.setRemoteAddr
  dsimp only
  split_ifs <;> exact h.still rfl id

theorem connectBind (socket : Socket) (id : SeqNo) (addr : SockAddr) :
    Hush s (connectBind env socket id addr t).1 := by
  have hconn : Hush s ((t.withSt fun st => { st with connected := true }).withPeer fun peer =>
      { peer with remoteId := id, socket := some socket }) := h.still rfl (fun x => x)
  have haddr := hconn.setRemoteAddr (some socket) addr
  unfold Udx.connectBind
  dsimp only
  split
  · exact haddr.still rfl (fun x => x)
  · exact haddr

theorem connectKeepalive : Hush s (connectKeepalive t) := by
  have hnote : Hush s (t.note (.reached .connectKeepalive t.toCore)) := h.soft rfl rfl
  unfold Udx.connectKeepalive
  dsimp only
  split
  · exact hnote.still rfl (fun x => x)
  · exact hnote

theorem ackOut : Hush s (ackOut env t) := by
  have hsend := h.sendCopy env (k := .ack) (fun _ => rfl) t.peer.dest (ackDatagram env t)
  unfold Udx.ackOut
  dsimp only
  split
  · have hended : Hush s (setEndedRemote (Udx.sendCopy env .ack t.peer.dest (ackDatagram env t) t)) :=
      hsend.still rfl (fun x => x)
    exact hended.announce _ _
  · exact hsend

theorem closeStart (err : CloseErr) : Hush s (closeStart env err t) := by
  have hdie : Hush s (setClosed (markDead (t.check .closeTwice (t.st.closed = false)))) := by
    unfold setClosed
    exact (h.checkSoft _ _ rfl).die (by simp [Status.dead])
  have hbegin : Hush s (closeBegin env t) := by
    unfold closeBegin
    dsimp only
    split
    · exact hdie.still rfl (fun x => x)
    · exact hdie
  unfold Udx.closeStart
  exact hbegin.announce _ _

theorem closeUnlessDestroying (err : CloseErr) : Hush s (closeUnlessDestroying env err t) := by
  have hdrop : Hush s (dropTimewaitOnError err t) := by
    unfold dropTimewaitOnError
    split
    · exact h.still rfl (fun x => x)
    · exact h
  unfold Udx.closeUnlessDestroying
  dsimp only
  split
  · exact hdrop
  · exact hdrop.closeStart env err

theorem closeEnded : Hush s (closeEnded env t) := by
  unfold Udx.closeEnded checkEnded
  exact ((h.checkSoft _ _ rfl).checkSoft _ _ rfl).closeUnlessDestroying env _

theorem destroyStart : Hush s (destroyStart env t) := by
  have hset : Hush s (setDestroying t) := by
    unfold setDestroying
    exact h.die (by simp [Status.dead])
  have hreach : Hush s ((setDestroying t).note (.reached .destroySend (setDestroying t).toCore)) :=
    hset.soft rfl rfl
  unfold Udx.destroyStart
  dsimp only
  split
  · exact hset.closeStart env .none
  · unfold destroySend queueCopy
    have hseq : Hush s (((setDestroying t).note
        (.reached .destroySend (setDestroying t).toCore)).withTx Tx.advanceSeq) :=
      hreach.still rfl (fun x => x)
    exact hseq.sendCopy env (k := .destroy) (fun _ => rfl) _ _

theorem relayGone : Hush s (relayGone env t) := by
  have hclear : Hush s (clearRelayTo t) := h.still rfl (fun x => x)
  have hdrop : Hush s (dropTimewait (clearRelayTo t)) := hclear.still rfl (fun x => x)
  unfold Udx.relayGone
  dsimp only
  split_ifs
  · exact hclear
  · exact hdrop.closeStart env .none
  · exact hdrop.destroyStart env

theorem countBytes (b bytes : ℕ) (cancelled : Bool) : Hush s (countBytes b bytes cancelled t) := by
  have hbounds : ∀ {x : Stream}, Hush s x → ∀ (p q r : Prop) [Decidable p] [Decidable q]
      [Decidable r], Hush s (((x.check .wbufAcked p).check .writeAcked q).check .writesQueued r) :=
    fun hx p q r _ _ _ =>
      ((hx.checkSoft .wbufAcked p rfl).checkSoft .writeAcked q rfl).checkSoft .writesQueued r rfl
  have hcheck : Hush s (checkBytes b bytes cancelled t) := by
    unfold checkBytes
    dsimp only
    split
    · exact hbounds h ..
    · exact hbounds (h.checkSoft .bytesInflight _ rfl) ..
  unfold Udx.countBytes
  exact hcheck.still rfl (fun x => x)

theorem changeRemote (socket : Socket) (id : SeqNo) (cb : Bool) :
    Hush s (changeRemote socket id cb t).1 := by
  obtain ⟨peer, changed, capacity, heq⟩ := changeRemote_eq socket id cb t
  rw [heq]
  exact h.still rfl (fun x => x)

theorem writeResult : Hush s (writeResult t).1 := by
  unfold Udx.writeResult
  split
  · exact h.still rfl (fun x => x)
  · exact h

/-- A write on a live stream. -/
theorem _udxStreamWrite (hlive : Calmed t.log → t.st.dead = false) (bufs : List (List UInt8)) (onAck e : Bool) :
    Hush s (_udxStreamWrite env bufs onAck e t) := by
  have hqueue : Hush s (t.withTx fun tx => tx.queueWrite bufs onAck e) := h.still rfl (fun x => x)
  have hprobe : Sends (t.withTx fun tx => tx.queueWrite bufs onAck e) (queueWrite env bufs onAck e t) := by
    unfold queueWrite probeWindow
    dsimp only
    split
    · exact ((Sends.refl _).sendProbe env).streamTimerStart _ _
    · exact .refl _
  unfold Udx._udxStreamWrite
  exact hqueue.sends hlive (hprobe.sendPackets env)

/-- One case for each call that never calls back. -/
theorem runCall_plain {c : Call} (hc : c.plain = true)
    (hcall : Calmed t.log → (Entry.call c t.toCore).stirs = false) :
    Hush s (runCall env Hook.quiet c t).1 := by
  cases c with
  | connect socket id addr => cases hc
  | send data onSend => cases hc
  | destroy => cases hc
  | teardown => cases hc
  | changeRemote socket id addr cb =>
    have haddr := h.setRemoteAddr t.peer.socket addr
    simp only [runCall, udxStreamChangeRemote]
    split_ifs
    · exact h
    · exact h
    · exact haddr
    · exact haddr.changeRemote _ _ _
  | relayTo destinationClosed =>
    simp only [runCall, udxStreamRelayTo]
    split <;> exact h.still rfl (fun x => x)
  | setKeepalive ms =>
    simp only [runCall, udxStreamSetKeepalive]
    split <;> exact h.still rfl (fun x => x)
  | setRwndMax size => exact h.still rfl (fun x => x)
  | firewall set => exact h.still rfl (fun x => x)
  | recvStart =>
    simp only [runCall, udxStreamRecvStart]
    split <;> exact h.still rfl (fun x => x)
  | recvStop =>
    simp only [runCall, udxStreamRecvStop]
    split <;> exact h.still rfl (fun x => x)
  | readStart =>
    simp only [runCall, udxStreamReadStart]
    split <;> exact h.still rfl (fun x => x)
  | readStop =>
    simp only [runCall, udxStreamReadStop]
    split <;> exact h.still rfl (fun x => x)
  | writeResume set => exact h.still rfl (fun x => x)
  | write bufs onAck =>
    simp only [runCall, udxStreamWrite]
    split_ifs with hconn hending hbufs
    · exact h
    · exact h
    · exact h
    · have hlive : Calmed t.log → t.st.dead = false := by
        intro hc
        have hup : t.st.connected = true := by simpa using hconn
        simpa [Entry.stirs, hup, hending, hbufs] using hcall hc
      exact (h._udxStreamWrite env hlive _ _ _).writeResult
  | writeEnd bufs onAck =>
    simp only [runCall, udxStreamWriteEnd]
    split_ifs with hconn hending hbufs
    · exact h
    · exact h
    all_goals
      have hlive : Calmed t.log → t.st.dead = false := by
        intro hc
        have hup : t.st.connected = true := by simpa using hconn
        simpa [Entry.stirs, hup, hending] using hcall hc
      have hset : Hush s (setEnding t) := h.still rfl (fun x => x)
      exact (hset._udxStreamWrite env hlive _ _ _).writeResult

end

end Hush

/-! ### The moves of a call -/

variable {env : Env}

theorem PlainMove.hush {s t : Stream} (h : PlainMove env s t) : Hush s t := by
  have hs := Hush.refl s
  cases h with
  | call c _ hc =>
    have henter : Hush s (s.note (.call c s.toCore)) := hs.soft rfl rfl
    have hrun := henter.runCall_plain env hc fun hcalm => hcalm _ (List.mem_cons_self ..)
    unfold Udx.call
    exact hrun.soft rfl rfl
  | enter => exact hs.soft rfl rfl
  | result => exact hs.soft rfl rfl
  | returned => exact hs.soft rfl rfl
  | teardown => exact hs.still rfl (fun x => x)

theorem CallMove.hush {s t : Stream} (h : CallMove env s t) : Hush s t := by
  have hs := Hush.refl s
  cases h with
  | plain hm => exact hm.hush
  | bind socket id addr =>
    have henter : Hush s (s.note (.call (.connect socket id addr) s.toCore)) := hs.soft rfl rfl
    exact henter.connectBind env socket id addr
  | keepalive => exact hs.connectKeepalive
  | message data onSend =>
    unfold messageSend
    exact (hs.sendCopy env (k := .message onSend) (fun _ => rfl) _ _).announce _ _
  | deferAck => exact hs.still rfl (fun x => x)
  | ackOut => exact hs.ackOut env
  | closeEnded => exact hs.closeEnded env
  | dropTimewait => exact hs.still rfl (fun x => x)
  | destroyStart => exact hs.destroyStart env
  | close err => exact hs.closeStart env err
  | cancelPkt => exact (hs.checkSoft .packetHeld _ rfl).still rfl (fun x => x)
  | cancelSeq => exact hs.still rfl (fun x => x)
  | cancelChunk c rest =>
    have hset : Hush s (setCancelling rest s) := hs.still rfl (fun x => x)
    unfold Udx.cancelChunk announceCancel
    exact (hset.countBytes c.wbuf c.len true).announce _ _
  | cancelDone => exact hs.still rfl (fun x => x)
  | cancelQueued b rest =>
    have hshift : Hush s (shiftWriteQueue rest s) := hs.still rfl (fun x => x)
    unfold Udx.cancelQueued announceCancel
    exact (hshift.countBytes b _ true).announce _ _
  | release =>
    have hstop : (udxStreamReadStop (clearIncomingPackets s)).1.log = s.log ∧
        (udxStreamReadStop (clearIncomingPackets s)).1.st.dead = s.st.dead := by
      unfold udxStreamReadStop
      split <;> exact ⟨rfl, rfl⟩
    exact hs.still hstop.1 fun hd => hstop.2.trans hd

theorem CallPath.hush {s t : Stream} (h : CallPath env s t) : Hush s t := by
  induction h with
  | refl s => exact .refl s
  | tail _ hm ih => exact ih.trans hm.hush
  | @connecting s t u _ _ ih ih' =>
    have hopen : Hush s (setConnecting true t) := ih.still rfl (fun x => x)
    exact (hopen.trans ih').still rfl (fun x => x)

/-! ### Expiries -/

namespace Hush

variable {s t u : Stream} (env : Env)

/-- What the send path does on a live stream, and what the calm log says of a
dead one. -/
theorem sendsOr (h : Hush s t) (hs : Sends t u)
    (hdead : Calmed t.log → t.st.dead = true → Hush t u) : Hush s u := by
  obtain ⟨l, hl, -⟩ := hs.log
  refine h.trans ⟨⟨l, hl⟩, fun hc => ?_⟩
  have hcalm : Calmed t.log := fun e he => hc e (hl ▸ List.mem_append_right l he)
  cases hd : t.st.dead with
  | false => exact ((refl t).sends (fun _ => hd) hs).hushed hc
  | true => exact (hdead hcalm hd).hushed hc

theorem rtoStart (hd : Calmed t.log → t.st.dead = true →
    t.st.connected = true ∧ t.tx.remoteAcked ≠ t.tx.seq ∧ t.st.closed = false) :
    Hush t (rtoStart t) := by
  have hpend : Hush t (t.withTm fun tm => { tm with pendingTimer := .none }) :=
    (refl t).still rfl (fun x => x)
  have hconn := hpend.check (a := .rtoConnected) (p := t.st.connected = true)
    fun _ hdead hc => (hd hc hdead).1
  have hout := hconn.check (a := .rtoOutstanding) (p := t.tx.remoteAcked ≠ t.tx.seq)
    fun _ hdead hc => (hd (hconn.calmed hc) (by rw [Stream.check_st] at hdead; exact hdead)).2.1
  have hst := (Stream.check_st .rtoOutstanding (t.tx.remoteAcked ≠ t.tx.seq)
    ((t.withTm fun tm => { tm with pendingTimer := .none }).check .rtoConnected
      (t.st.connected = true))).trans (Stream.check_st ..)
  unfold Udx.rtoStart
  dsimp only
  rw [Stream.check_tx, show (t.withTm fun tm => { tm with pendingTimer := .none }).tx = t.tx from rfl,
    show (t.withTm fun tm => { tm with pendingTimer := .none }).st = t.st from rfl]
  generalize ((t.withTm fun tm => { tm with pendingTimer := .none }).check .rtoConnected
      (t.st.connected = true)).check .rtoOutstanding (t.tx.remoteAcked ≠ t.tx.seq) = x at hout hst ⊢
  have hloss : (rtoEnterLoss x).log = x.log ∧ (rtoEnterLoss x).st = x.st := by
    unfold rtoEnterLoss bbrSaveCwnd
    split <;> exact ⟨rfl, rfl⟩
  have henter : Hush t (rtoEnterLoss x) := hout.still hloss.1 fun hd => hloss.2 ▸ hd
  have hst' : (rtoEnterLoss x).st = t.st := hloss.2.trans hst
  have hcount : Hush t ((rtoEnterLoss x).withTm fun tm =>
      { tm with rtoCount := (tm.rtoCount + 1) % 2 ^ 8 }) := henter.still rfl (fun x => x)
  have hclosed := hcount.check (a := .rtoClosed) (p := (rtoEnterLoss x).st.closed = false)
    fun _ hdead hc => by
      rw [hst']
      exact (hd (hcount.calmed hc) (hst' ▸ hdead)).2.2
  unfold rtoBackOff
  exact hclosed.still rfl (fun x => x)

theorem rtoResend (hlive : Calmed t.log → t.st.dead = false) : Hush t (rtoResend env t) := by
  have hloop := rtoLoop_sends (rackUpdateReoWnd t) (t.tx.seq - t.tx.remoteAcked).toNat
    t.tx.remoteAcked (.refl t)
  have hloss := (hloop.withCc (f := fun cc => { cc with
    cwnd := (rtoLoop (rackUpdateReoWnd t) (t.tx.seq - t.tx.remoteAcked).toNat t.tx.remoteAcked
      t).tx.inflightQueue.length + 1 }) rfl).withBbr
  unfold Udx.rtoResend bbrOnRto
  exact (refl t).sends hlive ((hloss _).sendPackets env)

theorem rearmSaved (hp : t.tm.pendingTimer = .rackReo ∨ t.tm.pendingTimer = .tlp) :
    Hush t (rearmRto false t) := by
  have hcheck := (refl t).check (a := .rearmPending) fun _ _ _ => hp
  unfold rearmRto rearmSavedRto
  split
  · exact (refl t).still rfl (fun x => x)
  · exact hcheck.still rfl (fun x => x)

/-- A tail-loss probe with nothing to send. -/
theorem udxTlpTimeout (hd : Calmed t.log → t.st.dead = true → t.timerStirs .tlp = false) :
    Hush t (udxTlpTimeout env t) := by
  refine (refl t).sendsOr ((Sends.refl t).udxTlpTimeout env) fun hc hdead => ?_
  have hquiet := hd hc hdead
  simp only [Core.timerStirs, Bool.or_eq_false_iff, Bool.and_eq_false_iff, Bool.not_eq_false',
    decide_eq_false_iff_not, not_not] at hquiet
  obtain ⟨hconn, hrest⟩ := hquiet
  have hcheck := (refl t).check (a := .tlpConnected) (p := t.st.connected = true)
    fun _ _ _ => hconn
  have hcore := Stream.check_core .tlpConnected (t.st.connected = true) t
  unfold Udx.udxTlpTimeout
  dsimp only
  rw [← hcore] at hrest
  generalize t.check .tlpConnected (t.st.connected = true) = x at hcheck hcore hrest ⊢
  split
  · exact hcheck
  next hout =>
  obtain ⟨hprobe, hpend⟩ := hrest.resolve_left fun h => hout h
  split
  · exact hcheck.trans (rearmSaved hpend)
  next hpermit =>
  simp only [Bool.or_eq_true, Bool.not_eq_true', not_or, Bool.not_eq_true, Bool.not_eq_false] at hpermit
  obtain ⟨hqueue, hnone⟩ : x.tx.writeQueue.length = 0 ∧ tlpCandidate x.tx = none := by
    simpa [Core.probesLoss, hpermit.1, hpermit.2] using hprobe
  have hunsent : sendNewPacket env true x = (x, false) := if_pos hqueue
  unfold sendLossProbe
  rw [hunsent]
  dsimp only
  rw [if_neg Bool.false_ne_true, hnone]
  exact hcheck.trans (rearmSaved hpend)

/-- The stream timer, where its expiry does not call back. -/
theorem fireTimer (hq : Event.quiet t .timer = true)
    (hev : Calmed t.log → (Entry.event .timer t.toCore).stirs = false) :
    Hush t (fireTimer env Hook.quiet t) := by
  have hclear : Hush t (clearTimer t) := (refl t).still rfl (fun x => x)
  unfold Udx.fireTimer
  cases htimer : t.tm.timer with
  | none => exact refl t
  | some x =>
    obtain ⟨timer, due⟩ := x
    dsimp only
    split
    · exact refl t
    next hdue =>
    have hquiet : Calmed (clearTimer t).log → (clearTimer t).st.dead = true →
        (clearTimer t).timerStirs timer = false := by
      intro hc hd
      have hd' : t.st.dead = true := hd
      have hno := hev hc
      simp only [Entry.stirs, hd', htimer, Option.any_some, decide_eq_true hdue, Bool.true_and] at hno
      exact hno
    have hlive : (clearTimer t).timerStirs timer = true → Calmed (clearTimer t).log →
        (clearTimer t).st.dead = false := by
      intro hstirs hc
      refine Bool.eq_false_iff.mpr fun hd => ?_
      rw [hquiet hc hd] at hstirs
      cases hstirs
    cases timer with
    | none => exact hclear
    | rto =>
      have hcount : (t.tm.rtoCount + 1) % 2 ^ 8 ≤ UDX_MAX_RTO_TIMEOUTS := by
        simp only [Event.quiet, htimer, Bool.or_eq_true, decide_eq_true_eq] at hq
        exact hq.resolve_left hdue
      have hstirs : (clearTimer t).timerStirs .rto = true := by
        have hcount' : ((clearTimer t).tm.rtoCount + 1) % 2 ^ 8 ≤ UDX_MAX_RTO_TIMEOUTS := hcount
        simp only [Core.timerStirs, decide_eq_true hcount', Bool.true_or]
      have hstart : Hush (clearTimer t) (Udx.rtoStart (clearTimer t)) :=
        rtoStart fun hc hd => absurd ((hlive hstirs hc).symm.trans hd) Bool.false_ne_true
      have hst : (Udx.rtoStart (clearTimer t)).st = (clearTimer t).st :=
        (congrArg Core.st (rtoStart_core (clearTimer t)) :)
      have hresend : Hush (Udx.rtoStart (clearTimer t)) (Udx.rtoResend env (Udx.rtoStart (clearTimer t))) :=
        rtoResend env fun hc => hst ▸ hlive hstirs (hstart.calmed hc)
      simp only [runTimer]
      rw [udxRtoTimeout_quiet (s := clearTimer t) hcount]
      exact hclear.trans (hstart.trans hresend)
    | rackReo => exact hclear.sends (hlive rfl) ((Sends.refl _).udxRackReoTimeout env)
    | tlp => exact hclear.trans (udxTlpTimeout env hquiet)
    | zwp => exact hclear.sends (hlive rfl) ((Sends.refl _).udxZwpTimeout env)
    | keepalive => exact hclear.sends (hlive rfl) ((Sends.refl _).udxKeepaliveTimeout env)

theorem firePacing (hev : Calmed t.log → (Entry.event .pacing t.toCore).stirs = false) :
    Hush t (firePacing env t) := by
  have hclear : Hush t (clearPacing t) := (refl t).still rfl (fun x => x)
  unfold Udx.firePacing
  cases hdue : t.tm.refillPacingTimer with
  | none => exact refl t
  | some due =>
    dsimp only
    split
    · exact refl t
    next hnow =>
    refine hclear.sends (fun hc => ?_) ((Sends.refl _).pacingTimerTimeout env)
    have hno := hev hc
    simp only [Entry.stirs, hdue, Option.any_some, decide_eq_true hnow, Bool.and_true] at hno
    exact hno

theorem firePrepare (hev : Calmed t.log → (Entry.event .prepare t.toCore).stirs = false) :
    Hush t (firePrepare env t) := by
  unfold Udx.firePrepare
  split
  · next hpend =>
    refine (refl t).sends (fun hc => ?_) ((Sends.refl t)._sendNewPacket env false)
    have hno := hev hc
    simpa only [Entry.stirs, hpend, Bool.and_true] using hno
  · exact refl t

/-- One case for each event that calls nothing back. -/
theorem runEvent_quiet {e : Event} (hq : e.quiet t = true)
    (hev : Calmed t.log → (Entry.event e t.toCore).stirs = false) :
    Hush t (runEvent env Hook.quiet e t) := by
  have ht := refl t
  cases e with
  | call c => cases hq
  | recv d same => cases hq
  | relayClosed => cases hq
  | timer => exact fireTimer env hq hev
  | pacing => exact firePacing env hev
  | prepare => exact firePrepare env hev
  | uvSent i =>
    simp only [runEvent, uvSent]
    split
    · exact ht
    · split
      · exact ht
      · exact Hush.still (ht.soft (e := .wire _ _ _) rfl rfl) rfl (fun x => x)
  | uvDone i =>
    simp only [runEvent, uvDone]
    split
    · exact ht
    · exact ht.still rfl (fun x => x)
  | copySent i =>
    simp only [runEvent, copySent]
    split
    · exact ht
    · split
      · exact ht
      · exact Hush.still (ht.soft (e := .wire _ _ _) rfl rfl) rfl (fun x => x)
  | copyDone i =>
    have hdrop : Hush t (dropCopy i t) := ht.still rfl (fun x => x)
    simp only [runEvent, copyDone]
    simp only [Event.quiet] at hq
    split
    · exact ht
    next u hu =>
    rw [hu] at hq
    cases hk : u.kind with
    | destroy => simp [hk] at hq
    | message onSend =>
      cases onSend with
      | true => simp [hk] at hq
      | false => exact hdrop
    | _ => exact hdrop
  | tick ms => exact ht.still rfl (fun x => x)
  | timewaitTimeout =>
    simp only [runEvent, timewaitTimeout]
    split
    · exact ht
    · split
      · exact ht
      · exact ht.still rfl (fun x => x)

end Hush

/-! ### The moves of an event -/

theorem LoopMove.hush {s t : Stream} (h : LoopMove env s t) : Hush s t := by
  have hs := Hush.refl s
  cases h with
  | quiet e _ he =>
    have hbegin : Hush s (beginEvent e s) := hs.soft rfl rfl
    have hrun := Hush.runEvent_quiet env ((beginEvent_quiet e e s).trans he)
      fun hc => hc _ (List.mem_cons_self ..)
    exact (hbegin.trans hrun).still rfl (fun x => x)
  | begin => exact hs.soft rfl rfl
  | finish => exact hs.still rfl (fun x => x)
  | asked => exact hs.still rfl (fun x => x)
  | callback => exact hs.soft rfl rfl
  | giveUp due _ ht hcount hdue hev =>
    have hclear : Hush s (clearTimer s) := hs.still rfl (fun x => x)
    have hstart : Hush (clearTimer s) (rtoStart (clearTimer s)) := by
      refine Hush.rtoStart fun hc hd => ?_
      have hno := hc _ hev
      have hd' : s.st.dead = true := hd
      simp only [Entry.stirs, hd', ht, Option.any_some, decide_eq_true hdue, Bool.true_and,
        Core.timerStirs, Bool.or_eq_false_iff, Bool.not_eq_false', decide_eq_false_iff_not] at hno
      exact ⟨hno.1.1.2, hno.1.2, hno.2⟩
    unfold rtoGiveUp
    exact (hclear.trans hstart).closeUnlessDestroying env _
  | copyGone => exact hs.still rfl (fun x => x)
  | destroySent i =>
    have hdrop : Hush s (dropCopy i s) := hs.still rfl (fun x => x)
    exact hdrop.closeStart env _
  | relayGone => exact hs.relayGone env
  | relay seq =>
    have hnote : Hush s (s.note (.reached (.relay seq) s.toCore)) := hs.soft rfl rfl
    exact hnote.still rfl (fun x => x)
  | timewait type =>
    unfold processTimewait
    split
    · split
      · exact hs.sendCopy env (fun _ => rfl) _ _
      · exact hs
    · exact hs

theorem Hush.announceRead {s t : Stream} (h : Hush s t) (data : List UInt8) :
    Hush s (announceRead data t) := by
  unfold Udx.announceRead
  split
  · exact h.soft rfl rfl
  · exact h.soft rfl rfl

theorem RecvMove.hush {s t : Stream} (h : RecvMove s t) : Hush s t := by
  have hs := Hush.refl s
  cases h with
  | packet => exact hs.still rfl (fun x => x)
  | take p =>
    have hnote : Hush s (noteAccept p.h.type p.h.seq p.data s) := hs.soft rfl rfl
    exact Hush.announceRead (hnote.still (u := takeNext _) rfl (fun x => x)) p.data
  | hold p =>
    have hnote : Hush s (noteAccept p.h.type p.h.seq p.data s) := hs.soft rfl rfl
    unfold holdPacket
    split
    · exact hs
    · exact hnote.still rfl (fun x => x)
  | endBit => exact hs.still rfl (fun x => x)
  | message => exact hs.soft rfl rfl
  | drainStart => exact hs.still rfl (fun x => x)
  | drainTake b rest =>
    have htake : Hush s (takeNext (setDraining rest s)) := hs.still rfl (fun x => x)
    unfold Udx.drainTake
    dsimp only
    split
    · exact htake.announceRead b.data
    · exact htake

theorem Hush.chunkStage {s t : Stream} (h : Hush s t) (c : Chunk) (rest : List Chunk) :
    Hush s (chunkStage c rest t) := by
  have hset : Hush s (setAcking rest (some c.wbuf)
      (t.withTx fun tx => { tx with bytesAcked := tx.bytesAcked + c.len })) :=
    h.still rfl (fun x => x)
  have hcount : Hush s (ackBytes c rest t) := hset.countBytes c.wbuf c.len false
  have hclear : Hush s (clearHighWatermark (ackBytes c rest t)) := hcount.still rfl (fun x => x)
  unfold Udx.chunkStage
  dsimp only
  split
  · exact hclear.announce _ _
  · exact hcount

theorem Hush.ackTake {s t : Stream} (h : Hush s t) (seq : SeqNo) (k : ℕ) (sack : Bool) :
    Hush s (ackTake seq k sack t) := by
  have hcheck : Hush s (t.check .cirbufNull (t.tx.outgoingLive = true)) := h.checkSoft _ _ rfl
  unfold Udx.ackTake
  generalize t.check .cirbufNull (t.tx.outgoingLive = true) = x at hcheck
  exact Hush.still (hcheck.soft (e := .reached (.ackTake k) x.toCore) rfl rfl) (takeAcked_log seq k sack x)
    fun hd => (congrArg Status.dead (takeAcked_st seq k sack x)).trans hd

theorem advanceRemoteAcked_still (p : RxPacket) (s : Stream) :
    (advanceRemoteAcked p s).log = s.log ∧ (advanceRemoteAcked p s).st = s.st := by
  unfold advanceRemoteAcked
  dsimp only
  split <;> exact ⟨rfl, rfl⟩

theorem AckMove.hush {s t : Stream} (h : AckMove env s t) : Hush s t := by
  have hs := Hush.refl s
  cases h with
  | window p =>
    have hwin : Hush s (updateSendWindow p.h (setProcessing true s)) := by
      unfold updateSendWindow stopZwp
      split_ifs <;> exact hs.still rfl (fun x => x)
    unfold windowStage
    dsimp only
    split
    · have hchanged : Hush s (remoteChanged (updateSendWindow p.h (setProcessing true s))) :=
        hwin.still rfl (fun x => x)
      exact hchanged.announce _ _
    · exact hwin
  | ackInit p =>
    have hnote : Hush s ((detectLossRepairedByLossProbe p.h.ack s).note (.reached (.episode p.h.ack)
        (detectLossRepairedByLossProbe p.h.ack s).toCore)) :=
      Hush.soft (hs.still (u := detectLossRepairedByLossProbe p.h.ack s) rfl (fun x => x)) rfl rfl
    exact hnote.still rfl (fun x => x)
  | ackAbsent p c =>
    have hnext : Hush s (setCursor (some (c + 1)) s) := hs.still rfl (fun x => x)
    exact (hnext.checkSoft .cirbufNull _ rfl).still rfl (fun x => x)
  | sackAbsent c => exact hs.checkSoft .cirbufNull _ rfl
  | ackTake p c k =>
    have hnext : Hush s (setCursor (some (c + 1)) s) := hs.still rfl (fun x => x)
    exact hnext.ackTake c k false
  | sackTake c k => exact hs.ackTake c k true
  | sackDead c k x rest => exact (hs.ackTake c k true).chunkStage x rest
  | chunk c rest => exact hs.chunkStage c rest
  | complete b sack =>
    have hclear : Hush s (clearAckDue s) := hs.still rfl (fun x => x)
    exact hclear.announce _ _
  | ackDone k =>
    unfold Udx.ackDone ackEnd
    split
    · exact hs.still rfl (fun x => x)
    · exact hs.still rfl (fun x => x)
  | ackDrop => exact hs.still rfl (fun x => x)
  | advance p =>
    obtain ⟨hlog, hst⟩ := advanceRemoteAcked_still p s
    exact hs.still hlog fun hd => hst ▸ hd
  | advanceAll p c _ hp hc hend hdead =>
    obtain ⟨hlog, hst⟩ := advanceRemoteAcked_still p s
    have hset : Hush s (setSacksLeft [] (advanceRemoteAcked p s)) := hs.still hlog fun hd => hst ▸ hd
    exact hset.sends (fun _ => (congrArg Status.dead hst).trans hdead)
      ((Sends.refl _).settleAcks env p _)
  | advanceEnded p _ hp hc hdead =>
    obtain ⟨hlog, hst⟩ := advanceRemoteAcked_still p s
    have hset : Hush s (advanceRemoteAcked p s) := hs.still hlog fun hd => hst ▸ hd
    exact hset.sends (fun _ => (congrArg Status.dead hst).trans hdead) (Sends.refl _).timerEnded
  | advanceDead p =>
    obtain ⟨hlog, hst⟩ := advanceRemoteAcked_still p s
    exact hs.still hlog fun hd => hst ▸ hd
  | sackNext => exact hs.still rfl (fun x => x)
  | settle p _ hp hdead => exact hs.sends (fun _ => hdead) ((Sends.refl s).settleAcks env p _)
  | finishPacket p delivered _ hp hdead =>
    have hcalm := bbrPacket_calm env p delivered s
    have hbbr : Hush s (bbrPacket env p delivered s) := by
      obtain ⟨l, hl, hcalmed⟩ := hcalm.log
      refine hs.grow (fun _ => hdead) ⟨l, hl, fun e he => ?_⟩
      have hnot := hcalmed e he
      cases e with
      | dead => cases hnot
      | _ => rfl
    have hlive : (bbrPacket env p delivered s).st.dead = false := hcalm.dead.trans hdead
    unfold Udx.finishPacket
    generalize bbrPacket env p delivered s = x at hbbr hlive
    have hsend := hbbr.sends (fun _ => hlive) ((Sends.refl x).sendPackets env)
    generalize sendPackets env x = y at hsend
    exact hsend.still rfl (fun x => x)

theorem Move.hush {s t : Stream} (h : Move env s t) : Hush s t := by
  cases h with
  | loop h => exact h.hush
  | recv h => exact h.hush
  | ack h => exact h.hush

/-! ### Runs -/

/-- In every run in which nothing stirs the dead stream, no DATA or END packet
and no probe is handed to the socket once the stream is DESTROYING or CLOSED,
and the asserts of the send path and of the timers hold from then on. -/
theorem Reach.silent {cfg : Config} {s : Stream} (h : Reach env cfg s)
    (hcalm : ∀ e ∈ s.log, e.stirs = false) : Silent s.log := by
  have hall := h.preserves (I := fun s => Calmed s.log → Hushed s) (fun _ => ⟨trivial, nofun⟩)
    (fun hm hs hc => hm.hush.hushed hc (hs (hm.hush.calmed hc)))
    fun hp hs hc => hp.hush.hushed hc (hs (hp.hush.calmed hc))
  exact (hall hcalm).silent

/-! ### Runs over a busy socket -/

/-- A socket that always says `UV_EAGAIN`: the destroy packet waits in libuv's
queue. -/
def Env.congested : Env := { Env.free with trySend := fun _ => .again }

def silentConfig : Config := { localId := 1, seq := 0, ack := 0, now := 0 }

/-- A stream is destroyed with or without a packet in construction, and the
prepare handle and the stream timer run. -/
def destroyEvents (calls : List Event) : List Event :=
  .call (.connect ⟨0, .inet⟩ 2 ⟨.inet, 1, [1, 2, 3, 4]⟩) :: calls ++
    [.call .destroy, .prepare, .tick 1000, .timer]

/-- A stream is destroyed while a packet is out and its timer runs. The packet
is acknowledged and its request done, the timer expires, and the completion of
the destroy packet closes the stream. -/
def destroyedStream : Stream :=
  let ack := Header.encode { type := 0, dataOffset := 0, remoteId := 1, rwnd := 65535, seq := 0, ack := 1 }
  runEvents .congested
    [.call (.connect ⟨0, .inet⟩ 2 ⟨.inet, 1, [1, 2, 3, 4]⟩), .call (.write [[7]] false), .prepare, .uvSent 0,
      .tick 10, .call .destroy, .tick 10, .recv ack true, .uvDone 0, .tick 1500, .timer, .pacing, .prepare,
      .copySent 0, .copyDone 0, .tick 1000, .timer, .pacing, .prepare]
    (init .congested silentConfig)

theorem Reach.silent_closed :
    (destroyedStream.st.closed = true ∧ destroyedStream.tx.seq = 2 ∧ destroyedStream.tx.remoteAcked = 0) ∧
      Silent destroyedStream.log := by
  have h : Reach .congested silentConfig destroyedStream := .runEvents .init _
  have hcalm : ∀ e ∈ destroyedStream.log, e.stirs = false := by decide +kernel
  exact ⟨by decide +kernel, h.silent hcalm⟩

/-- The prepare handle of the destroyed stream still sends the packet in
construction. -/
theorem Reach.silent_writing : ∃ s, Reach .congested silentConfig s ∧ ¬ Silent s.log := by
  refine ⟨_, .runEvents .init (destroyEvents [.call (.write [[7]] false)]), ?_⟩
  decide +kernel

end Udx
