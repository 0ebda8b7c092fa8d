/-
# What a step logs

The log only grows, and what a step adds to it tells of the state the step
found: an assert that failed was false there, and an event, a call or a
callback that returned is logged with that state.

Key definitions: `Entry.tells`, `Logs`.
Key theorems: `SendMove.logs`, `Atom.logs`.
-/
import Udx.Atoms

namespace Udx

open Serial

/-- The stream timer that fires is this one. -/
def Stream.fires (s : Stream) (x : Timer) : Prop := ∃ due, s.tm.timer = some (x, due)

/-- Packet `k` may still be sent again. -/
def Tx.Unacked (t : Tx) (k : ℕ) : Prop :=
  k ∈ t.inflightQueue ∨ k ∈ t.retransmitQueue ∨ ∃ a, t.outgoing a = some k

/-- The remote that the packet in construction goes to if it is sent now. -/
def Core.nextRemote (c : Core) : SeqNo × SockAddr × ℕ :=
  if (c.tx.pkts c.tx.pkt).remoteAddrLen = 0 then c.peer.remote else (c.tx.pkts c.tx.pkt).remote

/-- What an entry tells of the state `s` in which it was made. -/
def Entry.tells (s : Stream) : Entry → Prop
  | .event _ pre | .returned _ pre | .reached (.relay _) pre => pre = s.toCore
  | .call c pre => pre = s.toCore ∧ (Entry.call c pre).sets = false
  | .reached (.bind k) pre => k = s.tx.pkt ∧ pre.peer = s.peer ∧ pre.mtu = s.mtu
  | .reached (.ackTake _) pre => { pre with ctl := {} } = { s.toCore with ctl := {} }
  | .reached (.episode ack) pre => { pre with cc := {} } = { s.toCore with cc := {} } ∧
      pre.cc.caState = s.cc.caState ∧ pre.cc.highSeq = s.cc.highSeq ∧
      ∃ p, s.ctl.packet = some p ∧ p.h.ack = ack
  | .reached .destroySend pre => pre.tx = s.tx
  | .callback .remoteChanged => s.peer.remoteChanging = true ∧
      ∃ p, s.ctl.packet = some p ∧ seqDiff p.h.ack s.peer.seqOnRemoteChanged ≥ 0
  | .handed (.packet k) dest => k = s.tx.pkt ∧ dest = ⟨s.peer.socket, s.nextRemote.2.1⟩ ∨
      s.tx.Unacked k ∧ dest = ⟨s.peer.socket, (s.tx.pkts k).remoteAddr⟩
  | .handed .timewait _ => True
  | .handed _ dest => dest = s.peer.dest
  | .failed .sendDead => s.st.dead = true
  | .failed .keepaliveIdle => s.fires .keepalive ∧ s.tx.seq ≠ s.tx.remoteAcked
  | .failed .zwpConnected => s.fires .zwp ∧ s.st.connected = false
  | .failed .zwpRwnd => s.fires .zwp ∧ s.win.sendRwnd ≠ 0
  | .failed .zwpClosed => s.fires .zwp ∧ s.st.closed = true
  | .failed .zwpPending => s.fires .zwp ∧ s.tm.pendingTimer ≠ .zwp
  | .failed .zwpQueued => s.fires .zwp ∧ s.tx.writesQueuedBytes = 0 ∧
      (s.st.ending = true → s.st.ended = true)
  | .failed .rtoConnected => s.fires .rto ∧ s.st.connected = false
  | .failed .rtoOutstanding => s.fires .rto ∧ s.tx.remoteAcked = s.tx.seq
  | .failed .tlpConnected => s.st.connected = false
  | .failed .rearmPending => s.tm.pendingTimer ≠ .rackReo ∧ s.tm.pendingTimer ≠ .tlp
  | _ => True

/-- `span` does not fall, and `reused` stays. -/
structure Tx.Marks (t u : Tx) : Prop where
  span : t.span ≤ u.span
  reused : t.reused = true → u.reused = true

theorem Tx.Marks.refl (t : Tx) : t.Marks t := ⟨Nat.le_refl _, id⟩

theorem Tx.Marks.trans {t u v : Tx} (h : t.Marks u) (h' : u.Marks v) : t.Marks v :=
  ⟨Nat.le_trans h.span h'.span, h'.reused ∘ h.reused⟩

theorem Tx.Marks.of_eq {t u : Tx} (h : u.span = t.span) (h' : u.reused = t.reused) : t.Marks u :=
  ⟨Nat.le_of_eq h.symm, by rw [h']; exact id⟩

/-- The log grows by entries that tell of `s`, and the ghost marks of what is
sent stay. -/
structure Logs (s t : Stream) : Prop where
  log : ∃ l, t.log = l ++ s.log ∧ ∀ e ∈ l, e.tells s
  marks : s.tx.Marks t.tx

theorem Entry.tells_of_loose {e : Entry} (h : e.loose = true) (s : Stream) : e.tells s := by
  cases e with
  | failed a => cases a <;> trivial
  | refill => trivial
  | _ => cases h

theorem Entry.tells_of_calm {e : Entry} {s : Stream} (h : e.calm s.peer.dest = true) : e.tells s := by
  cases e with
  | failed a => cases a <;> trivial
  | event | call | returned | reached => cases h
  | handed k dest =>
    cases k with
    | packet | probe | destroy => cases h
    | ack | message => exact eq_of_beq h
    | timewait => trivial
  | callback c => cases c <;> trivial
  | _ => trivial

namespace Logs

variable {s t u : Stream}

theorem refl (s : Stream) : Logs s s := ⟨⟨[], rfl, by simp⟩, .refl _⟩

/-- One more entry. -/
theorem note (h : Logs s t) {e : Entry} (he : e.tells s) : Logs s (t.note e) := by
  obtain ⟨l, hl, hs⟩ := h.log
  refine ⟨⟨e :: l, congrArg (e :: ·) hl, fun e' he' => ?_⟩, h.marks⟩
  rcases List.mem_cons.mp he' with rfl | he'
  · exact he
  · exact hs e' he'

/-- One more assert. -/
theorem check (h : Logs s t) {a : Site} {p : Prop} [Decidable p]
    (ha : ¬ p → (Entry.failed a).tells s) : Logs s (t.check a p) := by
  unfold Stream.check
  split
  · exact h
  · next hp => exact h.note (ha hp)

/-- A change that logs nothing. -/
theorem quiet (h : Logs s t) (hl : u.log = t.log) (hs : t.tx.Marks u.tx) : Logs s u :=
  ⟨by rw [hl]; exact h.log, h.marks.trans hs⟩

theorem calm (h : Calm s t) : Logs s t := by
  obtain ⟨l, hl, hs⟩ := h.log
  exact ⟨⟨l, hl, fun e he => Entry.tells_of_calm (hs e he)⟩,
    .of_eq (congrArg Tx.span h.tx) (congrArg Tx.reused h.tx)⟩

theorem aside (h : Aside s t) : Logs s t := .calm ((Calm.refl s).aside h)

theorem mem (h : Logs s t) {e : Entry} (he : e ∈ s.log) : e ∈ t.log := by
  obtain ⟨l, hl, -⟩ := h.log
  exact hl ▸ List.mem_append_right _ he

/-- An entry of the longer log is an old one or tells of `s`. -/
theorem old_or_tells (h : Logs s t) {e : Entry} (he : e ∈ t.log) : e ∈ s.log ∨ e.tells s := by
  obtain ⟨l, hl, hs⟩ := h.log
  rcases List.mem_append.mp (hl ▸ he) with he | he
  · exact .inr (hs e he)
  · exact .inl he

theorem sendCopy (h : Logs s t) (env : Env) {k : Kind} {dest : Dest}
    (hk : (Entry.handed k dest).tells s) (d : List UInt8) : Logs s (sendCopy env k dest d t) := by
  have hhand : Logs s (t.note (.handed k dest)) := h.note hk
  unfold Udx.sendCopy
  dsimp only
  split
  · exact (hhand.note (e := .wire k dest d) trivial).quiet rfl (.of_eq rfl rfl)
  · split
    · exact hhand.quiet rfl (.of_eq rfl rfl)
    · exact hhand.quiet rfl (.of_eq rfl rfl)
  · exact hhand.quiet rfl (.of_eq rfl rfl)

theorem sendProbe (h : Logs s t) (env : Env) (hp : t.peer = s.peer) : Logs s (sendProbe env t) := by
  unfold Udx.sendProbe
  split
  · exact h
  · exact h.sendCopy env (k := .probe) (by rw [hp]; rfl) _

theorem announce (h : Logs s t) (on : Bool) {c : Callback} (hc : (Entry.callback c).tells s) :
    Logs s (t.announce on c) := by
  unfold Stream.announce
  split
  · exact h.note hc
  · exact h

end Logs

/-! ### The send path -/

theorem handing_tells {k : ℕ} {dest : Dest} {bytes : List UInt8} {e : Entry} {s : Stream}
    (h : e.handing k dest bytes) (hk : (Entry.handed (.packet k) dest).tells s) : e.tells s := by
  cases e with
  | handed k' dest' =>
    obtain ⟨rfl, rfl⟩ := h
    exact hk
  | wire | refill => trivial
  | failed a => exact Entry.tells_of_loose (e := .failed a) h s
  | _ => cases h

/-- The packet in construction as it was sent. -/
theorem NewPacket.sent {s t : Stream} (h : NewPacket s t) :
    ∃ p, (s.tx.pkts s.tx.pkt).Numbers s.toCore p ∧ (t.tx.pkts s.tx.pkt).remote = p.remote := by
  obtain ⟨p, z, hp, -, -, hz, htx⟩ := h.tx
  refine ⟨p, hp, ?_⟩
  have hpkt : z.pkt = s.tx.pkt := by
    rcases hz with rfl | rfl <;> rw [Tx.launch_eq] <;> rfl
  have hself : (t.tx.pkts s.tx.pkt) = z.pkts s.tx.pkt := by
    rw [htx]
    refine Tx.resetNextPacket_pkts_of_ne ?_
    show s.tx.pkt ≠ z.pkt + 1
    omega
  rw [hself]
  rcases hz with rfl | rfl
  · rw [Tx.launch_self]
    rfl
  · have hqueue : ∀ (x : Tx) (dest : Dest), ((x.queueUv s.tx.pkt dest).pkts s.tx.pkt).remote =
        (x.pkts s.tx.pkt).remote := fun x dest =>
      (congrArg Packet.remote (x.setPkt_self s.tx.pkt fun p => { p with refCount := p.refCount + 1 }) :)
    rw [hqueue, Tx.launch_self]
    rfl

theorem Tx.launch_marks (t : Tx) (k : ℕ) (p : Packet) : t.Marks (t.launch k p) := by
  rw [Tx.launch_eq]
  exact .of_eq rfl rfl

theorem Resent.marks {k : ℕ} {s t : Stream} (h : Resent k s t) : s.tx.Marks t.tx := by
  obtain ⟨p, -, -, -, htx | htx⟩ := h.tx
  · rw [htx]
    exact Tx.launch_marks ..
  · rw [htx]
    exact (s.tx.launch_marks k p).trans (.of_eq rfl rfl)

theorem Resent.logs {k : ℕ} {s t : Stream} (h : Resent k s t) (hk : s.tx.Unacked k) : Logs s t := by
  obtain ⟨l, hl, hs⟩ := h.log
  refine ⟨⟨l, hl, fun e he => ?_⟩, h.marks⟩
  rcases hs e he with hand | ⟨rfl, -⟩
  · exact handing_tells hand (.inr ⟨hk, rfl⟩)
  · trivial

/-- The numbers of a stream that a new packet was sent on. -/
theorem NewPacket.numbers {s t : Stream} (h : NewPacket s t) : t.tx.seq = s.tx.seq + 1 ∧
    t.tx.remoteAcked = s.tx.remoteAcked ∧
    t.tx.span = max s.tx.span ((s.tx.seq - s.tx.remoteAcked).toNat + 1) ∧
    t.tx.reused = (s.tx.reused || (s.tx.outgoing s.tx.seq).isSome) := by
  obtain ⟨p, z, -, -, -, hz, htx⟩ := h.tx
  have hzs : z.seq = s.tx.seq ∧ z.remoteAcked = s.tx.remoteAcked ∧ z.span = s.tx.span ∧
      z.reused = (s.tx.reused || (s.tx.outgoing s.tx.seq).isSome) := by
    rcases hz with rfl | rfl
    · rw [Tx.launch_eq]
      exact ⟨rfl, rfl, rfl, rfl⟩
    · unfold Tx.queueUv Tx.setPkt
      rw [Tx.launch_eq]
      exact ⟨rfl, rfl, rfl, rfl⟩
  obtain ⟨h1, h2, h3, h4⟩ := hzs
  rw [htx, ← h1, ← h2, ← h3, h1, ← h4]
  exact ⟨congrArg (· + 1) h1, rfl, by rw [← h1]; rfl, rfl⟩

theorem NewPacket.logs {s t : Stream} (h : NewPacket s t) : Logs s t := by
  obtain ⟨l, hl, hs⟩ := h.log
  obtain ⟨-, -, hspan, hreused⟩ := h.numbers
  refine ⟨⟨l, hl, fun e he => ?_⟩, ?_, ?_⟩
  · obtain ⟨p, hp, hremote⟩ := h.sent
    have haddr : (t.tx.pkts s.tx.pkt).remoteAddr = s.nextRemote.2.1 :=
      congrArg (fun r : SeqNo × SockAddr × ℕ => r.2.1) (hremote.trans hp.remote)
    rcases hs e he with hand | ⟨-, pre, rfl, rfl⟩
    · exact handing_tells hand (.inl ⟨rfl, by rw [haddr]⟩)
    · exact ⟨rfl, rfl, rfl⟩
  · rw [hspan]
    exact Nat.le_max_left ..
  · rw [hreused]
    intro hr
    rw [hr, Bool.true_or]

theorem fillSlice_logs (b : ℕ) (s : Stream) : Logs s (fillSlice b s) := by
  have hpack : Logs s (s.withTx fun tx => tx.packetize b (min s.tx.pktCapacity (s.tx.wbufs b).writesz)) :=
    (Logs.refl s).quiet rfl (.of_eq rfl rfl)
  unfold fillSlice
  dsimp only
  split
  · unfold startData bindPacketRemote
    refine Logs.quiet (t := Stream.check _ _ _) ((Logs.note hpack ?_).check ?_) rfl (.of_eq rfl rfl)
    · exact ⟨rfl, rfl, rfl⟩
    · exact fun _ => trivial
  · exact hpack

theorem streamTimerStart_logs {s t : Stream} (h : Logs s t) (x : Timer) (ms : ℕ) :
    Logs s (streamTimerStart x ms t) := h.quiet rfl (.of_eq rfl rfl)

theorem startKeepalive_logs {s t : Stream} (h : Logs s t) : Logs s (startKeepalive t) := by
  unfold startKeepalive
  split <;> exact h.quiet rfl (.of_eq rfl rfl)

theorem SendMove.logs {s t : Stream} (h : SendMove s t) : Logs s t := by
  have hs := Logs.refl s
  cases h with
  | aside h => exact .aside h
  | enter =>
    refine hs.check fun hdead => ?_
    show s.st.dead = true
    simpa using hdead
  | tlpEnter =>
    refine hs.check fun hconn => ?_
    show s.st.connected = false
    simpa using hconn
  | slice b => exact fillSlice_logs b s
  | recover h =>
    have htx : t.tx = s.tx := (congrArg Core.tx h.core :)
    exact hs.quiet h.log (.of_eq (congrArg Tx.span htx) (congrArg Tx.reused htx))
  | newPacket h => exact h.logs
  | resend k rest hk h => exact h.logs (.inr (.inl (by simp [hk])))
  | reprobe k hk h =>
    obtain ⟨l, hl, htells⟩ := h.log
    refine ⟨⟨l, hl, fun e he => ?_⟩, ⟨h.marks.span, h.marks.reused⟩⟩
    rcases htells e he with hand | ⟨rfl, -⟩
    · exact handing_tells hand (.inr ⟨.inr (.inr ⟨_, (tlpCandidate_spec hk).1⟩), rfl⟩)
    · trivial
  | lost k =>
    unfold unprobeIfProbe
    split <;> exact hs.quiet rfl (.of_eq rfl rfl)
  | rearm fromNow =>
    unfold rearmRto rearmSavedRto
    split_ifs
    · exact hs.quiet rfl (.of_eq rfl rfl)
    · exact streamTimerStart_logs hs ..
    · refine streamTimerStart_logs (hs.check fun hpend => ?_) ..
      exact not_or.mp hpend
  | fullAck =>
    unfold timerFullAck
    dsimp only
    have hcheck : Logs s (s.check .fullAckQueues
        (s.tx.inflightQueue.length = 0 ∧ s.tx.retransmitQueue.length = 0)) := hs.check fun _ => trivial
    split
    · exact streamTimerStart_logs hcheck ..
    · exact startKeepalive_logs hcheck
  | shift | prepare | lossTimer | reoTimer | deadline => exact hs.quiet rfl (.of_eq rfl rfl)

/-! ### The other steps -/

theorem setRemoteAddr_logs {s t : Stream} (h : Logs s t) (socket : Option Socket) (addr : SockAddr) :
    Logs s (setRemoteAddr socket addr t).1 := by
  unfold setRemoteAddr
  dsimp only
  split_ifs <;> exact h.quiet rfl (.of_eq rfl rfl)

section

variable (env : Env)

theorem queueWrite_logs {s t : Stream} (h : Logs s t) (hp : t.peer = s.peer) (bufs : List (List UInt8)) (onAck e : Bool) :
    Logs s (queueWrite env bufs onAck e t) := by
  have hqueue : Logs s (t.withTx fun tx => tx.queueWrite bufs onAck e) :=
    h.quiet rfl (.of_eq (congrArg Tx.span (queueWrite_unqueued bufs onAck e t.tx) :)
      (congrArg Tx.reused (queueWrite_unqueued bufs onAck e t.tx) :))
  unfold queueWrite probeWindow
  dsimp only
  split
  · exact streamTimerStart_logs (hqueue.sendProbe env hp) ..
  · exact hqueue

theorem connectBind_logs (socket : Socket) (id : SeqNo) (addr : SockAddr) (s : Stream) :
    Logs s (connectBind env socket id addr s).1 := by
  have hbind : Logs s ((s.withSt fun st => { st with connected := true }).withPeer fun peer =>
      { peer with remoteId := id, socket := some socket }) := (Logs.refl s).quiet rfl (.of_eq rfl rfl)
  have haddr := setRemoteAddr_logs hbind (some socket) addr
  unfold connectBind
  dsimp only
  split
  · exact haddr.quiet rfl (.of_eq rfl rfl)
  · exact haddr

theorem markDead_logs {s t : Stream} (h : Logs s t) : Logs s (markDead t) := by
  unfold markDead
  split
  · exact h
  · exact h.note trivial

theorem markDead_core (s : Stream) : (markDead s).toCore = s.toCore := by
  unfold markDead
  split <;> rfl

theorem setDestroying_core (s : Stream) :
    (setDestroying s).toCore = { s.toCore with st := { s.st with destroying := true } } := by
  have hcore := markDead_core s
  unfold setDestroying Stream.withSt
  dsimp only
  rw [hcore]

/-- A destroyed stream that relays closes at once, and another one numbers its
destroy packet. -/
theorem destroyStart_core (s : Stream) :
    s.peer.relayed = true ∧ destroyStart env s = closeStart env .none (setDestroying s) ∨
      s.peer.relayed = false ∧ (destroyStart env s).toCore =
        { s.toCore with
          st := { s.st with destroying := true }, tx := s.tx.advanceSeq,
          io := (destroyStart env s).io } ∧
        .reached .destroySend (setDestroying s).toCore ∈ (destroyStart env s).log := by
  have hset := setDestroying_core s
  unfold destroyStart
  dsimp only
  have hrelayed : (setDestroying s).peer.relayed = s.peer.relayed :=
    (congrArg (fun c => c.peer.relayed) hset :)
  split
  · next hr => exact .inl ⟨hrelayed ▸ hr, rfl⟩
  next hr =>
  refine .inr ⟨by rw [← hrelayed]; exact Bool.eq_false_iff.mpr hr, ?_, ?_⟩
  · unfold destroySend queueCopy
    rw [sendCopy_core]
    generalize (sendCopy env .destroy (setDestroying s).peer.dest _ _).io = io
    exact congrArg (fun c : Core => { c with tx := c.tx.advanceSeq, io := io }) hset
  · unfold destroySend queueCopy
    generalize hx : ((setDestroying s).note (.reached .destroySend (setDestroying s).toCore)).withTx
      Tx.advanceSeq = x
    have hmem : .reached .destroySend (setDestroying s).toCore ∈ x.log := by
      rw [← hx]
      exact List.mem_cons_self
    have hdest : (setDestroying s).peer.dest = x.peer.dest := by
      rw [← hx]
      rfl
    exact ((Logs.refl x).sendCopy env (k := .destroy) hdest _).mem hmem

theorem closeStart_logs {s t : Stream} (h : Logs s t) (err : CloseErr) :
    Logs s (closeStart env err t) := by
  have hclosed : Logs s (setClosed (markDead (t.check .closeTwice (t.st.closed = false)))) :=
    (markDead_logs (h.check (a := .closeTwice) fun _ => trivial)).quiet rfl (.of_eq rfl rfl)
  have hbegin : Logs s (closeBegin env t) := by
    unfold closeBegin
    dsimp only
    split
    · exact hclosed.quiet rfl (.of_eq rfl rfl)
    · exact hclosed
  unfold closeStart
  exact hbegin.announce _ trivial

theorem destroyStart_logs (s : Stream) : Logs s (destroyStart env s) := by
  have hset : Logs s (setDestroying s) := (markDead_logs (.refl s)).quiet rfl (.of_eq rfl rfl)
  unfold destroyStart
  dsimp only
  split
  · exact closeStart_logs env hset .none
  · unfold destroySend queueCopy
    have hreach : Logs s ((setDestroying s).note (.reached .destroySend (setDestroying s).toCore)) :=
      hset.note (congrArg Core.tx (setDestroying_core s) :)
    have hnumber : Logs s (((setDestroying s).note
        (.reached .destroySend (setDestroying s).toCore)).withTx Tx.advanceSeq) :=
      hreach.quiet rfl ⟨Nat.le_max_left .., id⟩
    have hpeer : (setDestroying s).peer = s.peer := (congrArg Core.peer (setDestroying_core s) :)
    exact hnumber.sendCopy env (k := .destroy) (by rw [hpeer]; rfl) _

theorem countBytes_logs {s t : Stream} (h : Logs s t) (b bytes : ℕ) (cancelled : Bool) :
    Logs s (countBytes b bytes cancelled t) := by
  have hcheck : Logs s (checkBytes b bytes cancelled t) := by
    unfold checkBytes
    have hbounds : ∀ {x : Stream}, Logs s x → ∀ (p q r : Prop) [Decidable p] [Decidable q] [Decidable r],
        Logs s (((x.check .wbufAcked p).check .writeAcked q).check .writesQueued r) := by
      intro x hx p q r _ _ _
      have h1 := hx.check (a := .wbufAcked) (p := p) fun _ => trivial
      have h2 := h1.check (a := .writeAcked) (p := q) fun _ => trivial
      exact h2.check (a := .writesQueued) fun _ => trivial
    dsimp only
    split
    · exact hbounds h ..
    · exact hbounds (h.check (a := .bytesInflight) fun _ => trivial) ..
  unfold countBytes
  exact hcheck.quiet rfl (.of_eq rfl rfl)

/-- What the start of a retransmission timeout does beside congestion control:
it empties the retransmit queue and starts the RTO again. -/
theorem rtoStart_core (s : Stream) :
    (rtoStart s).toCore = { s.toCore with
      cc := (rtoStart s).cc
      tm := Timers.start
        { s.tm with pendingTimer := .none, rtoCount := (s.tm.rtoCount + 1) % 2 ^ 8 } .rto
        (s.io.now + (rtoStart s).cc.rto * 2)
      tx := { s.tx with retransmitQueue := [] } } := by
  have hback : ∀ x : Stream, (rtoBackOff x).toCore = { x.toCore with
      tm := Timers.start { x.tm with rtoCount := (x.tm.rtoCount + 1) % 2 ^ 8 } .rto
        (x.io.now + x.cc.rto * 2) } := by
    intro x
    unfold rtoBackOff streamTimerStart Stream.withTm
    dsimp only
    simp only [Stream.check_core]
  have hloss : ∀ x : Stream, (rtoEnterLoss x).toCore = { x.toCore with cc := (rtoEnterLoss x).cc } := by
    intro x
    unfold rtoEnterLoss bbrSaveCwnd
    split <;> rfl
  have hstart : ∀ x : Stream, x.toCore = { s.toCore with tm := { s.tm with pendingTimer := .none } } →
      ((rtoBackOff (rtoEnterLoss x)).withTx fun tx => { tx with retransmitQueue := [] }).toCore =
        { s.toCore with
          cc := (rtoBackOff (rtoEnterLoss x)).cc
          tm := Timers.start
            { s.tm with pendingTimer := .none, rtoCount := (s.tm.rtoCount + 1) % 2 ^ 8 } .rto
            (s.io.now + (rtoBackOff (rtoEnterLoss x)).cc.rto * 2)
          tx := { s.tx with retransmitQueue := [] } } := by
    intro x hx
    show { (rtoBackOff (rtoEnterLoss x)).toCore with
      tx := { (rtoBackOff (rtoEnterLoss x)).tx with retransmitQueue := [] } } = _
    rw [hback, hloss, hx]
  refine hstart _ ?_
  rw [Stream.check_core, Stream.check_core]
  rfl

theorem rtoStart_logs {due : ℕ} {s : Stream} (ht : s.tm.timer = some (.rto, due)) :
    Logs s (rtoStart (clearTimer s)) := by
  have hfires : s.fires .rto := ⟨due, ht⟩
  have hclear : Logs s ((clearTimer s).withTm fun tm => { tm with pendingTimer := .none }) :=
    (Logs.refl s).quiet rfl (.of_eq rfl rfl)
  have hconn := hclear.check (a := .rtoConnected) (p := s.st.connected = true)
    fun h => ⟨hfires, by simpa using h⟩
  have hout := hconn.check (a := .rtoOutstanding) (p := s.tx.remoteAcked ≠ s.tx.seq)
    fun h => ⟨hfires, by simpa using h⟩
  have hcwnd : ∀ {x : Stream}, Logs s x → Logs s (rtoEnterLoss x) := by
    intro x hx
    unfold rtoEnterLoss bbrSaveCwnd
    split <;> exact hx.quiet rfl (.of_eq rfl rfl)
  have hback : ∀ {x : Stream}, Logs s x → Logs s (rtoBackOff x) := by
    intro x hx
    unfold rtoBackOff
    dsimp only
    have hcount : Logs s (x.withTm fun tm => { tm with rtoCount := (tm.rtoCount + 1) % 2 ^ 8 }) :=
      hx.quiet rfl (.of_eq rfl rfl)
    exact streamTimerStart_logs (hcount.check (a := .rtoClosed) fun _ => trivial) ..
  unfold rtoStart
  dsimp only
  have htx : ((clearTimer s).withTm fun tm => { tm with pendingTimer := .none }).tx = s.tx := rfl
  have hst : ((clearTimer s).withTm fun tm => { tm with pendingTimer := .none }).st = s.st := rfl
  rw [Stream.check_tx, htx, hst]
  exact (hback (hcwnd hout)).quiet rfl (.of_eq rfl rfl)

theorem rtoScan_logs {due : ℕ} {s : Stream} (ht : s.tm.timer = some (.rto, due)) :
    Logs s (rtoScan (clearTimer s)) := by
  have hstart := rtoStart_logs ht
  have hlook : ∀ {x : Stream} (reoWnd k : ℕ), Logs s x → Logs s (rtoLook reoWnd k x) := by
    intro x reoWnd k hx
    unfold rtoLook rtoKeepLost rtoMarkLost unprobeIfProbe
    dsimp only
    split_ifs <;> first | exact hx | exact hx.quiet rfl (.of_eq rfl rfl)
  have hloop : ∀ (reoWnd n : ℕ) (seq : SeqNo) {x : Stream}, Logs s x →
      Logs s (rtoLoop reoWnd n seq x) := by
    intro reoWnd n
    induction n with
    | zero => exact fun _ _ hx => hx
    | succ n ih =>
      intro seq x hx
      unfold rtoLoop
      split
      · exact ih _ hx
      · exact ih _ (hlook _ _ hx)
  unfold rtoScan
  exact hloop _ _ _ hstart

theorem sendProbe_core (s : Stream) :
    (sendProbe env s).toCore = { s.toCore with io := (sendProbe env s).io } := by
  unfold sendProbe
  split
  · rfl
  · exact sendCopy_core ..

theorem zwpTimeout_logs {due : ℕ} {s : Stream} (ht : s.tm.timer = some (.zwp, due)) :
    Logs s (udxZwpTimeout env (clearTimer s)) := by
  have hfires : s.fires .zwp := ⟨due, ht⟩
  have hclear : Logs s (clearTimer s) := (Logs.refl s).quiet rfl (.of_eq rfl rfl)
  have hconn := hclear.check (a := .zwpConnected) (p := s.st.connected = true)
    fun h => ⟨hfires, by simpa using h⟩
  have hrwnd := hconn.check (a := .zwpRwnd) (p := s.win.sendRwnd = 0) fun h => ⟨hfires, h⟩
  have hclosed := hrwnd.check (a := .zwpClosed) (p := s.st.closed = false)
    fun h => ⟨hfires, by simpa using h⟩
  unfold udxZwpTimeout
  dsimp only
  have hst : (clearTimer s).st = s.st ∧ (clearTimer s).win = s.win := ⟨rfl, rfl⟩
  rw [Stream.check_win, Stream.check_st, Stream.check_st, hst.1, hst.2]
  generalize hx : (((clearTimer s).check .zwpConnected (s.st.connected = true)).check .zwpRwnd
    (s.win.sendRwnd = 0)).check .zwpClosed (s.st.closed = false) = x at hclosed
  have hcore : x.toCore = (clearTimer s).toCore := by
    rw [← hx, Stream.check_core, Stream.check_core, Stream.check_core]
  have hcount : Logs s (x.withTm fun tm => { tm with zwpCount := (tm.zwpCount + 1) % 2 ^ 16 }) :=
    hclosed.quiet rfl (.of_eq rfl rfl)
  have hpeer : x.peer = s.peer := (congrArg Core.peer hcore :)
  have hprobe := hcount.sendProbe env hpeer
  have hycore := sendProbe_core env (x.withTm fun tm => { tm with zwpCount := (tm.zwpCount + 1) % 2 ^ 16 })
  generalize sendProbe env (x.withTm fun tm => { tm with zwpCount := (tm.zwpCount + 1) % 2 ^ 16 }) = y
    at hprobe hycore ⊢
  have hpend : y.tm.pendingTimer = s.tm.pendingTimer :=
    (congrArg (fun c => c.tm.pendingTimer) hycore :).trans (congrArg (fun c => c.tm.pendingTimer) hcore :)
  have hyst : y.st = s.st := (congrArg Core.st hycore :).trans (congrArg Core.st hcore :)
  have hwqb : y.tx.writesQueuedBytes = s.tx.writesQueuedBytes :=
    (congrArg (fun c => c.tx.writesQueuedBytes) hycore :).trans
      (congrArg (fun c => c.tx.writesQueuedBytes) hcore :)
  have hcheck := hprobe.check (a := .zwpPending) (p := y.tm.pendingTimer = .zwp)
    fun h => ⟨hfires, hpend ▸ h⟩
  refine streamTimerStart_logs (hcheck.check (a := .zwpQueued) fun h => ⟨hfires, ?_⟩) ..
  rw [Stream.check_tx, Stream.check_st, hwqb, hyst] at h
  obtain ⟨h1, h2⟩ := not_or.mp h
  exact ⟨by omega, fun he => by simpa [he] using h2⟩

theorem removeAcked_marks (t : Tx) (seq : SeqNo) (k : ℕ) (sack : Bool) :
    t.Marks (t.removeAcked seq k sack) := by
  unfold Tx.removeAcked
  dsimp only
  split_ifs <;> exact .of_eq rfl rfl

theorem ackTake_logs {s t : Stream} (h : Logs s t)
    (hc : { t.toCore with ctl := ({} : Control) } = { s.toCore with ctl := {} }) (seq : SeqNo) (k : ℕ)
    (sack : Bool) : Logs s (ackTake seq k sack t) := by
  have hcheck : Logs s (t.check .cirbufNull (t.tx.outgoingLive = true)) :=
    h.check (a := .cirbufNull) fun _ => trivial
  have hcore := Stream.check_core .cirbufNull (t.tx.outgoingLive = true) t
  unfold ackTake
  generalize t.check .cirbufNull (t.tx.outgoingLive = true) = x at hcheck hcore
  refine (hcheck.note (e := .reached (.ackTake k) x.toCore) (by rw [hcore]; exact hc)).quiet
    (takeAcked_log seq k sack x) ?_
  rw [takeAcked_tx]
  exact removeAcked_marks ..

theorem ackBytes_logs {s t : Stream} (h : Logs s t) (c : Chunk) (rest : List Chunk) :
    Logs s (ackBytes c rest t) := by
  have hset : Logs s (setAcking rest (some c.wbuf)
      (t.withTx fun tx => { tx with bytesAcked := tx.bytesAcked + c.len })) :=
    h.quiet rfl (.of_eq rfl rfl)
  unfold ackBytes
  exact countBytes_logs hset ..

/-- The steps of the calls that set the remote, from before the call. -/
inductive Sets : Stream → Stream → Prop
  | changePath (socket : Socket) (id : SeqNo) (addr : SockAddr) (cb : Bool) (s : Stream)
    (hset : (Entry.call (.changeRemote socket id addr cb) s.toCore).sets = true) :
    Sets s (changePath socket id addr cb (s.note (.call (.changeRemote socket id addr cb) s.toCore)))
  | bind (socket : Socket) (id : SeqNo) (addr : SockAddr) (s : Stream)
    (hset : (Entry.call (.connect socket id addr) s.toCore).sets = true) :
    Sets s (connectBind env socket id addr (s.note (.call (.connect socket id addr) s.toCore))).1

theorem Sets.logs {s t : Stream} (h : Sets env s t) :
    ∃ e, e.found = some s.toCore ∧ e.sets = true ∧ Logs (s.note e) t := by
  cases h with
  | changePath socket id addr cb _ hset =>
    obtain ⟨hcore, hlog, -⟩ :=
      changePath_spec socket id addr cb (s.note (.call (.changeRemote socket id addr cb) s.toCore))
    exact ⟨_, rfl, hset, (Logs.refl _).quiet hlog
      (.of_eq (congrArg (fun c => c.tx.span) hcore) (congrArg (fun c => c.tx.reused) hcore))⟩
  | bind socket id addr _ hset => exact ⟨_, rfl, hset, connectBind_logs env ..⟩

/-- What any other step logs. -/
theorem Atom.logs {s t : Stream} (h : Atom env s t) (hkeep : ¬ Sets env s t) : Logs s t := by
  have hs := Logs.refl s
  cases h with
  | changePath socket id addr cb _ hset => exact absurd (.changePath socket id addr cb s hset) hkeep
  | bind socket id addr _ hset => exact absurd (.bind socket id addr s hset) hkeep
  | calm h => exact .calm h
  | send h => exact h.logs
  | found e _ he hset =>
    refine hs.note ?_
    cases e with
    | call c pre => exact ⟨Option.some.inj he, Option.some.inj he ▸ hset⟩
    | returned c pre => exact Option.some.inj he
    | _ => cases he
  | begin e => exact hs.note rfl
  | setKeepalive ms =>
    unfold udxStreamSetKeepalive
    dsimp only
    split <;> exact hs.quiet rfl (.of_eq rfl rfl)
  | queueWrite bufs onAck isEnd => exact queueWrite_logs env hs rfl ..
  | keepalive =>
    have hreach : Logs s (s.note (.reached .connectKeepalive s.toCore)) := hs.note trivial
    unfold connectKeepalive
    dsimp only
    split
    · exact streamTimerStart_logs hreach ..
    · exact hreach
  | destroy => exact destroyStart_logs env s
  | close err => exact closeStart_logs env hs err
  | cancelPkt =>
    unfold Udx.cancelPkt
    exact (hs.check (a := .packetHeld) fun _ => trivial).quiet rfl (.of_eq rfl rfl)
  | cancelChunk c rest =>
    unfold Udx.cancelChunk announceCancel
    have hset : Logs s (setCancelling rest s) := hs.quiet rfl (.of_eq rfl rfl)
    exact (countBytes_logs hset ..).announce _ trivial
  | cancelQueued b rest =>
    unfold Udx.cancelQueued announceCancel
    have hshift : Logs s (shiftWriteQueue rest s) := hs.quiet rfl (.of_eq rfl rfl)
    exact (countBytes_logs hshift ..).announce _ trivial
  | release =>
    unfold releaseHandles udxStreamReadStop
    split <;> exact hs.quiet rfl (.of_eq rfl rfl)
  | keepaliveTimeout due _ ht =>
    have hclear : Logs s (Udx.clearTimer s) := hs.quiet rfl (.of_eq rfl rfl)
    unfold udxKeepaliveTimeout
    dsimp only
    exact streamTimerStart_logs ((hclear.check (a := .keepaliveIdle)
      (p := s.tx.seq = s.tx.remoteAcked) fun h => ⟨⟨due, ht⟩, h⟩).sendProbe env
      (Stream.check_peer ..)) ..
  | zwpTimeout due _ ht => exact zwpTimeout_logs env ht
  | rtoScan due _ ht => exact rtoScan_logs ht
  | giveUp due _ ht =>
    have hdrop : Logs s (dropTimewaitOnError .timedOut (rtoStart (Udx.clearTimer s))) := by
      unfold dropTimewaitOnError
      split
      · exact (rtoStart_logs ht).quiet rfl (.of_eq rfl rfl)
      · exact rtoStart_logs ht
    unfold rtoGiveUp closeUnlessDestroying
    dsimp only
    split
    · exact hdrop
    · exact closeStart_logs env hdrop _
  | uvSent i =>
    unfold Udx.uvSent
    split
    · exact hs
    · split
      · exact hs
      · next u hu hsent =>
        exact (hs.note (e := .wire (.packet u.pkt) u.dest (s.tx.gather u.bufs)) trivial).quiet rfl
          (.of_eq rfl rfl)
  | uvDone i =>
    unfold Udx.uvDone
    split
    · exact hs
    · exact hs.quiet rfl (.of_eq rfl rfl)
  | copySent i =>
    unfold Udx.copySent
    split
    · exact hs
    · split
      · exact hs
      · next u hu hsent =>
        exact (hs.note (e := .wire u.kind u.dest u.bytes) trivial).quiet rfl (.of_eq rfl rfl)
  | relay seq =>
    unfold relaySeq
    exact (hs.note (e := .reached (.relay seq) s.toCore) rfl).quiet rfl (.of_eq rfl rfl)
  | window p =>
    unfold updateSendWindow stopZwp
    split
    · split <;> exact hs.quiet rfl (.of_eq rfl rfl)
    · exact hs.quiet rfl (.of_eq rfl rfl)
  | ackAbsent p c =>
    have hset : Logs s (setCursor (some (c + 1)) s) := hs.quiet rfl (.of_eq rfl rfl)
    unfold Udx.ackAbsent ackMissing
    exact (hset.check (a := .cirbufNull) fun _ => trivial).quiet rfl (.of_eq rfl rfl)
  | sackAbsent =>
    unfold Udx.ackAbsent ackMissing
    exact hs.check (a := .cirbufNull) fun _ => trivial
  | ackTake p c k =>
    have hset : Logs s (setCursor (some (c + 1)) s) := hs.quiet rfl (.of_eq rfl rfl)
    exact ackTake_logs hset rfl ..
  | sackTake c k => exact ackTake_logs hs rfl ..
  | sackDead c k x rest => exact ackBytes_logs (ackTake_logs hs rfl ..) ..
  | chunk c rest => exact ackBytes_logs hs ..
  | complete b sack =>
    have hclear : Logs s (clearAckDue s) := hs.quiet rfl (.of_eq rfl rfl)
    exact hclear.announce _ trivial
  | ackDone k =>
    unfold Udx.ackDone ackEnd
    split <;> exact hs.quiet rfl (.of_eq rfl rfl)
  | advance p =>
    unfold advanceRemoteAcked
    dsimp only
    split <;> exact hs.quiet rfl (.of_eq rfl rfl)
  | remoteChanged p _ hp hdead hack hchanging hge =>
    exact Logs.announce (hs.quiet (u := Udx.remoteChanged s) rfl (.of_eq rfl rfl)) _
      ⟨hchanging, p, hp, hge⟩
  | ackInit p _ hp =>
    have hcc : Logs s (detectLossRepairedByLossProbe p.h.ack s) := hs.quiet rfl (.of_eq rfl rfl)
    refine Logs.quiet (t := Stream.note _ _) (hcc.note ?_) rfl (.of_eq rfl rfl)
    have hkept : (detectLossRepairedByLossProbe p.h.ack s).cc.caState = s.cc.caState ∧
        (detectLossRepairedByLossProbe p.h.ack s).cc.highSeq = s.cc.highSeq := by
      unfold detectLossRepairedByLossProbe Stream.withCc
      dsimp only
      split_ifs <;> exact ⟨rfl, rfl⟩
    exact ⟨rfl, hkept.1, hkept.2, p, hp, rfl⟩
  | timerEnded =>
    unfold Udx.timerEnded
    split
    · exact startKeepalive_logs hs
    · exact hs
  | finish | packet | relayTo | clearRelayTo | capacity | setEnding | cancelSeq | cancelDone
  | clearTimer | clearPacing | tick | ackDrop | processed =>
    exact hs.quiet rfl (.of_eq rfl rfl)

theorem Atom.mem_log {s t : Stream} (h : Atom env s t) {e : Entry} (he : e ∈ s.log) : e ∈ t.log := by
  by_cases hset : Sets env s t
  · obtain ⟨e', -, -, hl⟩ := hset.logs
    exact hl.mem (List.mem_cons_of_mem _ he)
  · exact (h.logs env hset).mem he

theorem Atom.marks {s t : Stream} (h : Atom env s t) : s.tx.Marks t.tx := by
  by_cases hset : Sets env s t
  · obtain ⟨e', -, -, hl⟩ := hset.logs
    exact hl.marks
  · exact (h.logs env hset).marks

/-- A new entry holds the state or tells of it. -/
theorem Atom.old_or_tells {s t : Stream} (h : Atom env s t) {e : Entry} (he : e ∈ t.log) :
    e ∈ s.log ∨ e.found = some s.toCore ∨ e.tells s := by
  by_cases hset : Sets env s t
  · obtain ⟨e', he', -, hl⟩ := hset.logs
    rcases hl.old_or_tells he with hold | htells
    · rcases List.mem_cons.mp hold with rfl | hold
      · exact .inr (.inl he')
      · exact .inl hold
    · exact .inr (.inr htells)
  · exact ((h.logs env hset).old_or_tells he).imp_right .inr

end

end Udx
