/-
# What sending leaves alone

The send path (everything in `Sender`) changes the queues, the timers,
congestion control and the MTU, logs what it hands to libuv, and does nothing
else. `Sends s t` says so of one call that takes `s` to `t`; there is one lemma
for each function.

Key definitions: `Still`, `Entry.sending`, `Sends`.
Key theorems: `Sends.sendPackets`, `Sends._sendNewPacket`, `Sends.retransmitPacket`.
-/
import Udx.Moves

namespace Udx

open Serial

/-- What sending leaves of a write buffer. -/
def WriteBuf.still (b : WriteBuf) : WriteBuf := { b with bytesInflight := 0 }

structure TxStill where
  remoteAcked : SeqNo
  sacks : ℕ
  outgoingLive : Bool
  wbufs : ℕ → WriteBuf
  writes : ℕ → Write
  nwbufs : ℕ
  nwrites : ℕ
  bytesQueued : ℕ
  bytesAcked : ℕ
  writesQueuedBytes : ℕ

def Tx.still (t : Tx) : TxStill :=
  { remoteAcked := t.remoteAcked, sacks := t.sacks,
    outgoingLive := t.outgoingLive, wbufs := fun b => (t.wbufs b).still, writes := t.writes,
    nwbufs := t.nwbufs, nwrites := t.nwrites, bytesQueued := t.bytesQueued,
    bytesAcked := t.bytesAcked, writesQueuedBytes := t.writesQueuedBytes }

/-- The part of a stream that sending does not change. -/
structure Still where
  st : Status
  rx : Rx
  win : Win
  peer : Peer
  handlers : Handlers
  ctl : Control
  now : ℕ
  teardown : Bool
  timewait : Option Timewait
  keepaliveTimeoutMs : ℕ
  rtoCount : ℕ
  tx : TxStill
  delivered : SeqNo
  event : Option (Event × Core)

def Stream.still (s : Stream) : Still :=
  { st := s.st, rx := s.rx, win := s.win, peer := s.peer, handlers := s.handlers, ctl := s.ctl,
    now := s.io.now, teardown := s.io.teardown, timewait := s.io.timewait,
    keepaliveTimeoutMs := s.tm.keepaliveTimeoutMs, rtoCount := s.tm.rtoCount, tx := s.tx.still,
    delivered := s.cc.delivered, event := s.event? }

/-- What sending logs. -/
def Entry.sending : Entry → Bool
  | .failed _ | .refill .. | .handed .. | .wire .. | .reached (.bind _) _ => true
  | _ => false

/-- Sending numbers packets, one after another. -/
structure Tx.Grows (t t' : Tx) : Prop where
  span : t.span ≤ t'.span
  pkt : t.pkt ≤ t'.pkt
  outstanding : t'.span < 2 ^ 32 → t'.seq = t.seq ∨ t'.seq ≠ t'.remoteAcked

namespace Tx.Grows

theorem refl (t : Tx) : t.Grows t := ⟨Nat.le_refl _, Nat.le_refl _, fun _ => .inl rfl⟩

theorem trans {t u v : Tx} (h : t.Grows u) (h' : u.Grows v) (hr : v.remoteAcked = u.remoteAcked) :
    t.Grows v := by
  refine ⟨Nat.le_trans h.span h'.span, Nat.le_trans h.pkt h'.pkt, fun hn => ?_⟩
  rcases h'.outstanding hn with hv | hv
  · rw [hv, hr]
    exact h.outstanding (Nat.lt_of_le_of_lt h'.span hn)
  · exact .inr hv

/-- Nothing was numbered. -/
theorem of_eq {t t' : Tx} (hn : t'.span = t.span) (hp : t'.pkt = t.pkt) (hs : t'.seq = t.seq) :
    t.Grows t' := ⟨Nat.le_of_eq hn.symm, Nat.le_of_eq hp.symm, fun _ => .inl hs⟩

end Tx.Grows

/-- The send path takes `s` to `t`. -/
structure Sends (s t : Stream) : Prop where
  still : t.still = s.still
  log : ∃ l, t.log = l ++ s.log ∧ ∀ e ∈ l, e.sending = true
  grows : s.tx.Grows t.tx
  flight : t.tx.span < 2 ^ 32 → s.tx.seq ≠ s.tx.remoteAcked → t.cc.firstSentTs = s.cc.firstSentTs

namespace Sends

variable {s t u : Stream}

theorem refl (s : Stream) : Sends s s := ⟨rfl, ⟨[], rfl, by simp⟩, .refl _, fun _ _ => rfl⟩

theorem trans (h : Sends s t) (h' : Sends t u) : Sends s u := by
  obtain ⟨l, hl, hs⟩ := h.log
  obtain ⟨l', hl', hs'⟩ := h'.log
  refine ⟨h'.still.trans h.still, ⟨l' ++ l, by rw [hl', hl, List.append_assoc], fun e he => ?_⟩,
    h.grows.trans h'.grows (congrArg (fun x => x.tx.remoteAcked) h'.still), fun hn hout => ?_⟩
  · rcases List.mem_append.mp he with he | he
    · exact hs' e he
    · exact hs e he
  · have hspan := Nat.lt_of_le_of_lt h'.grows.span hn
    have hra : t.tx.remoteAcked = s.tx.remoteAcked := congrArg (fun x => x.tx.remoteAcked) h.still
    have hout' : t.tx.seq ≠ t.tx.remoteAcked := by
      rcases h.grows.outstanding hspan with hseq | hseq
      · rw [hseq, hra]
        exact hout
      · exact hseq
    exact (h'.flight hn hout').trans (h.flight hspan hout)

/-! What the parts of `Stream.still` are. -/

section

variable (h : Sends s t)
include h

theorem st : t.st = s.st := congrArg Still.st h.still
theorem rx : t.rx = s.rx := congrArg Still.rx h.still
theorem win : t.win = s.win := congrArg Still.win h.still
theorem peer : t.peer = s.peer := congrArg Still.peer h.still
theorem handlers : t.handlers = s.handlers := congrArg Still.handlers h.still
theorem ctl : t.ctl = s.ctl := congrArg Still.ctl h.still
theorem now : t.io.now = s.io.now := congrArg Still.now h.still
theorem keepalive : t.tm.keepaliveTimeoutMs = s.tm.keepaliveTimeoutMs :=
  congrArg Still.keepaliveTimeoutMs h.still
theorem rtoCount : t.tm.rtoCount = s.tm.rtoCount := congrArg Still.rtoCount h.still
theorem tx : t.tx.still = s.tx.still := congrArg Still.tx h.still
theorem delivered : t.cc.delivered = s.cc.delivered := congrArg Still.delivered h.still
theorem event? : t.event? = s.event? := congrArg Still.event h.still
theorem remoteAcked : t.tx.remoteAcked = s.tx.remoteAcked := congrArg TxStill.remoteAcked h.tx
theorem sacks : t.tx.sacks = s.tx.sacks := congrArg TxStill.sacks h.tx
theorem writes : t.tx.writes = s.tx.writes := congrArg TxStill.writes h.tx
theorem wbufs (b : ℕ) : (t.tx.wbufs b).still = (s.tx.wbufs b).still :=
  congrFun (congrArg TxStill.wbufs h.tx) b
theorem nwbufs : t.tx.nwbufs = s.tx.nwbufs := congrArg TxStill.nwbufs h.tx
theorem nwrites : t.tx.nwrites = s.tx.nwrites := congrArg TxStill.nwrites h.tx
theorem writesQueuedBytes : t.tx.writesQueuedBytes = s.tx.writesQueuedBytes :=
  congrArg TxStill.writesQueuedBytes h.tx
theorem span : s.tx.span ≤ t.tx.span := h.grows.span

end

/-! ### The parts of a stream -/

variable (h : Sends s t)
include h

theorem note {e : Entry} (he : e.sending = true) : Sends s (t.note e) := by
  refine h.trans ⟨?_, ⟨[e], rfl, by simpa using he⟩, .refl _, fun _ _ => rfl⟩
  cases e <;> first | rfl | cases he

theorem check (a : Site) (p : Prop) [Decidable p] : Sends s (t.check a p) := by
  unfold Stream.check
  split
  · exact h
  · exact h.note rfl

theorem withCc {f : Cc → Cc}
    (hf : ((f t.cc).delivered, (f t.cc).firstSentTs) = (t.cc.delivered, t.cc.firstSentTs)) :
    Sends s (t.withCc f) := by
  refine h.trans ⟨?_, ⟨[], rfl, by simp⟩, .refl _, fun _ _ => congrArg Prod.snd hf⟩
  exact congrArg (fun d => { t.still with delivered := d }) (congrArg Prod.fst hf)

theorem withBbr (f : Bbr → Bbr) : Sends s (t.withBbr f) := h.withCc rfl

theorem withMtu (f : Mtu → Mtu) : Sends s (t.withMtu f) :=
  h.trans ⟨rfl, ⟨[], rfl, by simp⟩, .refl _, fun _ _ => rfl⟩

theorem withTm {f : Timers → Timers}
    (hk : (f t.tm).keepaliveTimeoutMs = t.tm.keepaliveTimeoutMs)
    (hr : (f t.tm).rtoCount = t.tm.rtoCount) : Sends s (t.withTm f) := by
  refine h.trans ⟨?_, ⟨[], rfl, by simp⟩, .refl _, fun _ _ => rfl⟩
  exact congrArg₂ (fun k r => { t.still with keepaliveTimeoutMs := k, rtoCount := r }) hk hr

theorem withTx {f : Tx → Tx} (hf : (f t.tx).still = t.tx.still)
    (hg : t.tx.Grows (f t.tx)) : Sends s (t.withTx f) :=
  h.trans ⟨congrArg (fun x => { t.still with tx := x }) hf, ⟨[], rfl, by simp⟩, hg, fun _ _ => rfl⟩

/-- Writing to a packet. -/
theorem setPkt (k : ℕ) (f : Packet → Packet) : Sends s (t.withTx fun tx => tx.setPkt k f) :=
  h.withTx rfl (.of_eq rfl rfl rfl)

theorem asked : Sends s t.asked := h.trans ⟨rfl, ⟨[], rfl, by simp⟩, .refl _, fun _ _ => rfl⟩

theorem copies (l : List UvCopy) : Sends s (t.withIo fun io => { io with copies := l }) :=
  h.trans ⟨rfl, ⟨[], rfl, by simp⟩, .refl _, fun _ _ => rfl⟩

/-! ### Congestion control -/

theorem updatePacingTime : Sends s (updatePacingTime t) := by
  unfold Udx.updatePacingTime
  split
  · exact ((h.check _ _).note rfl).withCc rfl
  · exact h

theorem streamMaySend (retransmit : Bool) : Sends s (streamMaySend retransmit t).1 := by
  unfold Udx.streamMaySend
  dsimp only
  split_ifs <;> exact (h.check _ _).updatePacingTime

theorem udxRateCheckAppLimited : Sends s (udxRateCheckAppLimited t) := by
  unfold Udx.udxRateCheckAppLimited
  split
  · exact h.withCc rfl
  · exact h

theorem rateFlightStart : Sends s (rateFlightStart t) := by
  unfold Udx.rateFlightStart
  split
  · next hseq => exact h.trans ⟨rfl, ⟨[], rfl, by simp⟩, .refl _, fun _ hne => absurd hseq hne⟩
  · exact h

variable (env : Env)

theorem bbrInitPacingRateFromRtt : Sends s (bbrInitPacingRateFromRtt env t) := by
  have hseen := (h.check .bbrInitBw (t.cc.cwnd ≠ 0)).withBbr
  unfold Udx.bbrInitPacingRateFromRtt
  exact (hseen _).withCc rfl

theorem bbrSetPacingRate : Sends s (bbrSetPacingRate env t) := by
  have hsee : Sends s (bbrSeeRtt env t) := by
    unfold bbrSeeRtt
    split
    · exact h.bbrInitPacingRateFromRtt env
    · exact h
  unfold Udx.bbrSetPacingRate bbrRaisePacingRate
  split
  · exact hsee.withCc rfl
  · exact hsee

theorem bbrSaveCwnd : Sends s (bbrSaveCwnd t) := by
  unfold Udx.bbrSaveCwnd
  split <;> exact h.withBbr _

theorem bbrResetMode : Sends s (bbrResetMode t) := by
  unfold Udx.bbrResetMode
  split
  · exact h.withBbr _
  · unfold bbrResetProbeBwMode bbrAdvanceCyclePhase
    exact (h.withBbr _).withBbr _

theorem bbrCheckProbeRttDone (now : ℕ) : Sends s (bbrCheckProbeRttDone now t) := by
  unfold Udx.bbrCheckProbeRttDone
  split
  · exact ((h.withBbr _).withCc rfl).bbrResetMode
  · exact h

theorem bbrOnTransmitStart : Sends s (bbrOnTransmitStart env t) := by
  unfold Udx.bbrOnTransmitStart
  split
  · split
    · exact (h.withBbr _).bbrSetPacingRate env
    · exact (h.withBbr _).bbrCheckProbeRttDone _
    · exact h.withBbr _
  · exact h

theorem transmitStart (empty : Bool) : Sends s (transmitStart env empty t) := by
  unfold Udx.transmitStart
  split
  · exact h.bbrOnTransmitStart env
  · exact h

/-! ### Timers -/

theorem streamTimerStart (timer : Timer) (ms : ℕ) : Sends s (streamTimerStart timer ms t) := by
  unfold Udx.streamTimerStart
  exact h.withTm rfl rfl

theorem streamTimerStop : Sends s (streamTimerStop t) := by
  unfold Udx.streamTimerStop
  exact h.withTm rfl rfl

theorem rearmRto (fromNow : Bool) : Sends s (rearmRto fromNow t) := by
  unfold Udx.rearmRto
  split
  · exact h.streamTimerStop
  · split
    · exact h.streamTimerStart _ _
    · unfold rearmSavedRto
      exact (h.check _ _).streamTimerStart _ _

theorem scheduleLossProbe (advancing : Bool) : Sends s (scheduleLossProbe advancing t).1 := by
  unfold Udx.scheduleLossProbe
  split
  · exact h
  · exact h.streamTimerStart _ _

theorem armStreamTimers (tlp : Bool) : Sends s (armStreamTimers tlp t) := by
  have hcheck : Sends s (checkArm t) := by
    unfold checkArm
    exact (((h.check _ _).check _ _).check _ _).check _ _
  have hrto : Sends s (armRto (checkArm t)) := by
    unfold armRto
    split
    · exact hcheck.streamTimerStart _ _
    · exact hcheck
  have htlp : Sends s (armTlp (armRto (checkArm t))) := by
    unfold armTlp
    split
    · exact hrto.scheduleLossProbe _
    · exact hrto
  unfold Udx.armStreamTimers
  split
  · exact htlp
  · exact hrto

/-! ### Sending a packet -/

theorem sendCopy (k : Kind) (dest : Dest) (d : List UInt8) : Sends s (sendCopy env k dest d t) := by
  have hhand : Sends s (t.note (.handed k dest)) := h.note rfl
  unfold Udx.sendCopy
  dsimp only
  split
  · exact (hhand.note rfl).asked
  · split
    · exact (hhand.copies _).asked
    · exact hhand.asked
  · exact hhand.asked

theorem sendProbe : Sends s (sendProbe env t) := by
  unfold Udx.sendProbe
  split
  · exact h
  · exact h.sendCopy env _ _ _

theorem mtuProbeifyPacket (k size : ℕ) : Sends s (mtuProbeifyPacket k size t).1 := by
  unfold Udx.mtuProbeifyPacket
  dsimp only
  split_ifs
  · exact h
  · exact h.check _ _
  · exact (h.check _ _).setPkt _ _

theorem mtuUnprobeifyPacket (k : ℕ) : Sends s (mtuUnprobeifyPacket k t) := by
  unfold Udx.mtuUnprobeifyPacket
  exact (h.setPkt _ _).withMtu _

theorem queuePacket (k : ℕ) (send : UvSend) : Sends s (queuePacket env k send t) := by
  unfold Udx.queuePacket
  dsimp only
  split
  · exact ((h.setPkt _ _).check _ _).withTx rfl (.of_eq rfl rfl rfl)
  · exact ((h.setPkt _ _).check _ _).setPkt _ _

theorem handPacket (k : ℕ) : Sends s (handPacket env k t) := by
  unfold Udx.handPacket
  dsimp only
  split
  · exact ((h.note rfl).note rfl).asked
  · exact ((h.note rfl).queuePacket env k _).asked
  · exact (h.note rfl).asked

theorem spendTokens (size : ℕ) : Sends s (spendTokens size t) := by
  unfold Udx.spendTokens
  dsimp only
  split
  · exact (h.withCc rfl).withTm rfl rfl
  · exact h.withCc rfl

theorem unlinkIfLost (k : ℕ) : Sends s (t.withTx fun tx => tx.unlinkIfLost k) := by
  unfold Tx.unlinkIfLost
  apply h.withTx <;> (split <;> first | rfl | exact .of_eq rfl rfl rfl)

theorem _sendPacket (k : ℕ) (isRetransmit : Bool) : Sends s (_sendPacket env k isRetransmit t) := by
  have hflight := h.udxRateCheckAppLimited.rateFlightStart
  have hpush {x : Stream} (hx : Sends s x) :
      Sends s (x.withTx fun tx => (tx.unlinkIfLost k).pushInflight k) := by
    show Sends s ((x.withTx fun tx => tx.unlinkIfLost k).withTx fun tx => tx.pushInflight k)
    exact (hx.unlinkIfLost k).withTx rfl (.of_eq rfl rfl rfl)
  unfold Udx._sendPacket
  exact ((hpush (hflight.setPkt _ _)).handPacket env k).spendTokens _

theorem resetNextPacket : Sends s (resetNextPacket t) := by
  unfold Udx.resetNextPacket
  exact (h.withTx rfl ⟨Nat.le_refl _, Nat.le_succ _, fun _ => .inl rfl⟩).withTm rfl rfl

theorem bindPacketRemote (k : ℕ) : Sends s (bindPacketRemote k t) := by
  unfold Udx.bindPacketRemote
  exact ((h.note rfl).check _ _).setPkt _ _

theorem stampNewPacket (tlp : Bool) : Sends s (stampNewPacket env tlp t).1 := by
  have hbind : Sends s (bindIfUnbound t.tx.pkt t) := by
    unfold bindIfUnbound
    split
    · exact h.bindPacketRemote _
    · exact h
  have hnumber : Sends s (numberPacket env t.tx.pkt (bindIfUnbound t.tx.pkt t)) := by
    unfold numberPacket
    exact hbind.setPkt _ _
  unfold Udx.stampNewPacket probeIfWanted
  dsimp only
  split
  · exact hnumber.mtuProbeifyPacket _ _
  · exact hnumber

theorem countNewPacket (tlp mtuProbe : Bool) (seq : SeqNo) :
    Sends s (countNewPacket tlp mtuProbe seq t) := by
  unfold Udx.countNewPacket
  refine (h.withMtu _).withCc ?_
  split <;> rfl

theorem advanceSeq : Sends s (t.withTx Tx.advanceSeq) := by
  refine h.withTx rfl ⟨Nat.le_max_left _ _, Nat.le_refl _, fun hn => .inr ?_⟩
  have hlt := Nat.lt_of_le_of_lt (Nat.le_max_right t.tx.span _) hn
  intro hround
  have hseq : t.tx.seq + 1 = t.tx.remoteAcked := hround
  have hmax : (t.tx.seq - t.tx.remoteAcked).toNat = 2 ^ 32 - 1 := by bv_omega
  omega

theorem _sendNewPacket (tlp : Bool) : Sends s (_sendNewPacket env tlp t) := by
  have hcheck := h.check .headerFlag (t.tx.pktHeaderFlag &&& ~~~UDX_HEADER_DATA_OR_END = 0)
  unfold Udx._sendNewPacket
  dsimp only
  apply Sends.resetNextPacket
  apply Sends.check
  apply Sends.armStreamTimers
  apply Sends.countNewPacket
  apply Sends.transmitStart
  apply Sends.advanceSeq
  apply Sends._sendPacket
  exact (hcheck.stampNewPacket env tlp).withTx rfl (.of_eq rfl rfl rfl)

/-! ### Filling a packet -/

theorem packetize (b len : ℕ) : Sends s (t.withTx fun tx => tx.packetize b len) := by
  refine h.withTx ?_ (.of_eq rfl rfl rfl)
  have hb : (fun x => ((t.tx.packetize b len).wbufs x).still) =
      fun x => (t.tx.wbufs x).still := by
    funext x
    simp only [Tx.packetize, Tx.setWbuf, Tx.setPkt, Function.update_apply]
    split
    · rename_i hx; subst hx; rfl
    · rfl
  exact congrArg (fun w => { t.tx.still with wbufs := w }) hb

theorem fillSlice (b : ℕ) : Sends s (fillSlice b t) := by
  unfold Udx.fillSlice
  dsimp only
  split
  · exact ((h.packetize _ _).bindPacketRemote _).withTx rfl (.of_eq rfl rfl rfl)
  · exact h.packetize _ _

theorem fillPacket (queue : List ℕ) : Sends s (fillPacket queue t) := by
  induction queue generalizing t with
  | nil => exact h
  | cons b rest ih =>
    unfold Udx.fillPacket
    dsimp only
    split_ifs
    · exact h
    · exact ih ((h.fillSlice b).withTx rfl (.of_eq rfl rfl rfl))
    · exact h.fillSlice b

theorem buildPacket (tlp : Bool) : Sends s (buildPacket env tlp t).1 := by
  have hfill := h.fillPacket t.tx.writeQueue
  unfold Udx.buildPacket
  dsimp only
  split_ifs
  · exact hfill._sendNewPacket env tlp
  · dsimp only
    exact hfill.withTm rfl rfl
  · exact hfill

theorem sendNewPacket (tlp : Bool) : Sends s (sendNewPacket env tlp t).1 := by
  unfold Udx.sendNewPacket
  dsimp only
  split_ifs
  · exact h
  · exact h.streamMaySend _
  · exact (h.streamMaySend _).buildPacket env tlp

/-! ### Loops -/

theorem retransmitPacket (k : ℕ) : Sends s (retransmitPacket env k t) := by
  unfold Udx.retransmitPacket
  exact (((h.setPkt _ _)._sendPacket env k true).transmitStart env _).armStreamTimers _

theorem retransmitLoop (n : ℕ) : Sends s (retransmitLoop env n t) := by
  induction n generalizing t with
  | zero => exact h
  | succ n ih =>
    unfold Udx.retransmitLoop
    split
    · exact h
    · dsimp only
      split
      · exact ih ((h.streamMaySend _).retransmitPacket env _)
      · exact h.streamMaySend _

theorem newPacketLoop (n : ℕ) : Sends s (newPacketLoop env n t) := by
  induction n generalizing t with
  | zero => exact h
  | succ n ih =>
    unfold Udx.newPacketLoop
    dsimp only
    split
    · exact ih (h.sendNewPacket env _)
    · exact h.sendNewPacket env _

theorem sendPackets : Sends s (sendPackets env t) := by
  unfold Udx.sendPackets
  exact ((h.check _ _).retransmitLoop env _).newPacketLoop env _

/-! ### Probes and loss detection -/

theorem tlpFromExisting (k : ℕ) : Sends s (tlpFromExisting env k t) := by
  have hunlink := h.withTx (f := fun tx => tx.unlinkInflight k) rfl (.of_eq rfl rfl rfl)
  unfold Udx.tlpFromExisting
  refine (hunlink.retransmitPacket env k).withCc ?_
  dsimp only

theorem sendLossProbe : Sends s (sendLossProbe env t) := by
  have hnew := h.sendNewPacket env true
  unfold Udx.sendLossProbe
  dsimp only
  split
  · exact hnew.rearmRto _
  · split
    · exact hnew.rearmRto _
    · exact (hnew.tlpFromExisting env _).rearmRto _

theorem udxTlpTimeout : Sends s (udxTlpTimeout env t) := by
  have hcheck := h.check .tlpConnected (t.st.connected = true)
  unfold Udx.udxTlpTimeout
  dsimp only
  split_ifs
  · exact hcheck
  · exact hcheck.rearmRto _
  · exact hcheck.sendLossProbe env

theorem unprobeIfProbe (k : ℕ) : Sends s (unprobeIfProbe k t) := by
  unfold Udx.unprobeIfProbe
  split
  · exact h.mtuUnprobeifyPacket k
  · exact h

theorem rackMarkLost (k : ℕ) : Sends s (rackMarkLost k t) := by
  have hcheck := (h.withCc (f := fun cc => { cc with lost := cc.lost + 1 }) rfl).check .rackSize
    ((t.tx.pkts k).size > 0 ∧ (t.tx.pkts k).size < 1500)
  unfold Udx.rackMarkLost
  exact (hcheck.withTx rfl (.of_eq rfl rfl rfl)).unprobeIfProbe k

theorem rackLoop (reoWnd : ℕ) (queue : List ℕ) (acc : RackAcc) :
    Sends s (rackLoop reoWnd queue acc t).1 := by
  induction queue generalizing t acc with
  | nil => exact h
  | cons k rest ih =>
    have hcheck := h.check .rackTransmits ((t.tx.pkts k).transmits > 0)
    unfold Udx.rackLoop
    dsimp only
    split
    · exact hcheck
    · exact ih hcheck _
    · exact ih (hcheck.rackMarkLost k) _
    · exact ih hcheck _

theorem rackEnterRecovery (acc : RackAcc) : Sends s (rackEnterRecovery acc t) := by
  have hforgive : Sends s (rackForgiveProbes acc t) := by
    unfold rackForgiveProbes
    split
    · exact h.withCc rfl
    · exact h
  unfold Udx.rackEnterRecovery
  dsimp only
  split
  · exact (hforgive.withCc rfl).bbrSaveCwnd.withCc rfl
  · exact hforgive

theorem rackDetectLoss : Sends s (rackDetectLoss env t).1 := by
  unfold Udx.rackDetectLoss
  exact ((h.rackLoop _ _ _).rackEnterRecovery _).sendPackets env

theorem rackDetectLossAndArmTimer : Sends s (rackDetectLossAndArmTimer env t).1 := by
  unfold Udx.rackDetectLossAndArmTimer
  dsimp only
  split
  · exact ((h.rackDetectLoss env).check _ _).streamTimerStart _ _
  · exact h.rackDetectLoss env

theorem udxRackReoTimeout : Sends s (udxRackReoTimeout env t) := by
  unfold Udx.udxRackReoTimeout rackRearm
  split
  · exact (h.rackDetectLoss env).rearmRto _
  · exact h.rackDetectLoss env

theorem udxKeepaliveTimeout : Sends s (udxKeepaliveTimeout env t) := by
  unfold Udx.udxKeepaliveTimeout
  exact ((h.check _ _).sendProbe env).streamTimerStart _ _

theorem udxZwpTimeout : Sends s (udxZwpTimeout env t) := by
  unfold Udx.udxZwpTimeout
  dsimp only
  apply Sends.streamTimerStart
  apply Sends.check
  apply Sends.check
  apply Sends.sendProbe
  exact (((h.check _ _).check _ _).check _ _).withTm rfl rfl

theorem pacingTimerTimeout : Sends s (pacingTimerTimeout env t) := by
  unfold Udx.pacingTimerTimeout
  exact h.updatePacingTime.sendPackets env

/-! ### After an acknowledgement -/

theorem startKeepalive : Sends s (startKeepalive t) := by
  unfold Udx.startKeepalive
  split
  · exact h.streamTimerStart _ _
  · exact h.streamTimerStop

theorem timerEnded : Sends s (timerEnded t) := by
  unfold Udx.timerEnded
  split
  · exact h.startKeepalive
  · exact h

theorem timerDelivered : Sends s (timerDelivered t) := by
  unfold Udx.timerDelivered
  split
  · unfold timerFullAck
    dsimp only
    split
    · exact (h.check _ _).streamTimerStart _ _
    · exact (h.check _ _).startKeepalive
  · exact h.withTm rfl rfl

theorem settleAcks (p : RxPacket) (delivered : ℕ) : Sends s (settleAcks env p delivered t) := by
  have harm : ∀ {x : Stream}, Sends s x → Sends s (armRtoOrTlp x) := by
    intro x hx
    unfold armRtoOrTlp
    dsimp only
    split
    · exact hx.scheduleLossProbe _
    · exact (hx.scheduleLossProbe _).rearmRto _
  unfold Udx.settleAcks afterDelivery
  dsimp only
  split_ifs
  · exact harm (h.timerDelivered.rackDetectLossAndArmTimer env)
  · exact h.timerDelivered.rackDetectLossAndArmTimer env
  · exact harm h
  · exact h

/-! ### BBR -/

theorem bbrUpdateBw (rs : RateSample) : Sends s (bbrUpdateBw rs t) := by
  have hround := h.withBbr fun bbr => { bbr with roundStart := false }
  unfold Udx.bbrUpdateBw bbrStartRound
  dsimp only
  split_ifs
  · exact hround
  · exact (hround.withBbr _).check _ _
  · exact hround.check _ _

theorem bbrCountAcked (expected acked : ℕ) : Sends s (bbrCountAcked expected acked t) := by
  unfold Udx.bbrCountAcked
  exact ((h.check _ _).withBbr _).withBbr _

theorem bbrUpdateAckAggregation (rs : RateSample) : Sends s (bbrUpdateAckAggregation env rs t) := by
  unfold Udx.bbrUpdateAckAggregation
  dsimp only
  split_ifs
  · exact h
  · exact ((h.withBbr _).withBbr _).bbrCountAcked _ _
  · exact (h.withBbr _).bbrCountAcked _ _

theorem bbrAdvanceCyclePhase : Sends s (bbrAdvanceCyclePhase t) := by
  unfold Udx.bbrAdvanceCyclePhase
  exact h.withBbr _

theorem bbrUpdateCyclePhase (rs : RateSample) : Sends s (bbrUpdateCyclePhase env rs t) := by
  unfold Udx.bbrUpdateCyclePhase
  split
  · exact h.bbrAdvanceCyclePhase
  · exact h

theorem bbrCheckFullBwReached (rs : RateSample) : Sends s (bbrCheckFullBwReached env rs t) := by
  unfold Udx.bbrCheckFullBwReached
  split_ifs
  · exact h
  · exact h.withBbr _
  · exact h.withBbr _

theorem bbrCheckDrain : Sends s (bbrCheckDrain env t) := by
  have hdrain : Sends s (bbrStartDrain t) := by
    unfold bbrStartDrain
    split
    · exact h.withBbr _
    · exact h
  unfold Udx.bbrCheckDrain
  dsimp only
  split
  · unfold bbrResetProbeBwMode
    exact (hdrain.withBbr _).bbrAdvanceCyclePhase
  · exact hdrain

theorem bbrProbeRtt (now : ℕ) : Sends s (bbrProbeRtt now t) := by
  have hlimit := h.withCc (f := fun cc => { cc with
    appLimited := orOne (cc.delivered + BitVec.ofNat 32 t.tx.inflightQueue.length) }) rfl
  unfold Udx.bbrProbeRtt bbrProbeRttRound
  dsimp only
  split_ifs
  · exact hlimit.withBbr _
  · exact (hlimit.withBbr _).bbrCheckProbeRttDone _
  · exact hlimit.withBbr _
  · exact hlimit

theorem bbrUpdateMinRtt (rs : RateSample) : Sends s (bbrUpdateMinRtt rs t) := by
  have htake : Sends s (bbrTakeMinRtt rs (bbrFilterExpired t) t) := by
    unfold bbrTakeMinRtt
    split
    · exact h.withBbr _
    · exact h
  have henter : ∀ {x : Stream}, Sends s x → Sends s (bbrEnterProbeRtt (bbrFilterExpired t) x) := by
    intro x hx
    unfold bbrEnterProbeRtt
    split
    · exact ((hx.withBbr _).bbrSaveCwnd).withBbr _
    · exact hx
  have hin : ∀ {x : Stream}, Sends s x → Sends s (bbrInProbeRtt x) := by
    intro x hx
    unfold bbrInProbeRtt
    split
    · exact hx.bbrProbeRtt _
    · exact hx
  unfold Udx.bbrUpdateMinRtt
  exact (hin (henter htake)).withBbr _

theorem bbrUpdateModel (rs : RateSample) : Sends s (bbrUpdateModel env rs t) := by
  have hbw := (h.bbrUpdateBw rs).bbrUpdateAckAggregation env rs
  have hphase := (hbw.bbrUpdateCyclePhase env rs).bbrCheckFullBwReached env rs
  have hmin := (hphase.bbrCheckDrain env).bbrUpdateMinRtt rs
  unfold Udx.bbrUpdateModel bbrUpdateGains
  exact hmin.withBbr _

theorem bbrSetCwnd (rs : RateSample) (acked : ℕ) : Sends s (bbrSetCwnd env rs acked t) := by
  have hrecover : Sends s (bbrRecover t) := by
    unfold bbrRecover
    split_ifs <;> exact h.withBbr _
  have hcap : ∀ {x : Stream}, Sends s x → Sends s (bbrCapCwnd x) := by
    intro x hx
    unfold bbrCapCwnd
    split
    · exact hx.withCc rfl
    · exact hx
  unfold Udx.bbrSetCwnd
  dsimp only
  split
  · exact hcap ((h.withCc rfl).check _ _)
  · exact hcap ((hrecover.withCc rfl).check _ _)

theorem bbrMain (rs : RateSample) : Sends s (bbrMain env rs t) := by
  unfold Udx.bbrMain
  exact (((h.bbrUpdateModel env rs).bbrSetPacingRate env).bbrSetCwnd env rs _).asked

end Sends

end Udx
