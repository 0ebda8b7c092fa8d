/-
# Turns of congestion control

What a step of a run does to the estimators, the token bucket and the window:
most of it leaves them alone, and the rest is one of the few turns of `Turn`.

Key definitions: `Tuned`, `Turn`, `Turns`, `Packet.estimate`.
Key theorems: `Move.turns`, `CallPath.turns`, `Reach.turns`, `takeAcked_tuned`, `bbrSetCwnd_tuned`.
-/
import Udx.Silence

namespace Udx

open Serial

/-! ### Turns -/

/-- The estimators of congestion control, the token bucket and the window. -/
structure Tuned where
  srtt : ℕ
  rttvar : ℕ
  rto : ℕ
  tbAvailable : ℕ
  tbLastRefillMs : ℕ
  refillPacingTimer : Option ℕ
  now : ℕ
  cwnd : ℕ
  prevCaState : CaState
  usePacketConservation : Bool

def Stream.tuned (s : Stream) : Tuned :=
  { srtt := s.cc.srtt, rttvar := s.cc.rttvar, rto := s.cc.rto, tbAvailable := s.cc.tbAvailable,
    tbLastRefillMs := s.cc.tbLastRefillMs, refillPacingTimer := s.tm.refillPacingTimer,
    now := s.io.now, cwnd := s.cc.cwnd, prevCaState := s.cc.bbr.prevCaState,
    usePacketConservation := s.cc.bbr.usePacketConservation }

/-- The asserts on the window. -/
def Site.window : Site → Bool
  | .cwndPositive | .bbrCwnd => true
  | _ => false

/-- The log keeps a turn. -/
def Entry.turning : Entry → Bool
  | .refill .. | .reached (.ackTake _) _ => true
  | .failed a => a.window
  | _ => false

/-- Congestion control is left alone. -/
structure Untuned (s t : Stream) : Prop where
  tuned : t.tuned = s.tuned
  closed : s.st.closed = true → t.st.closed = true
  log : ∃ l, t.log = l ++ s.log ∧ ∀ e ∈ l, e.turning = false

variable (env : Env)

inductive Turn : Stream → Stream → Prop
  | rest {s t} (h : Untuned s t) : Turn s t
  | tick (ms : ℕ) (s : Stream) : Turn s (s.withIo fun io => { io with now := io.now + ms })
  -- the token bucket
  | mayCheck (s : Stream) : Turn s (s.check .cwndPositive (s.cc.cwnd > 0))
  | refill (s : Stream) : Turn s (updatePacingTime s)
  | spend (size : ℕ) (s : Stream) : Turn s (spendTokens size s)
  | firePacing (due : ℕ) (s : Stream) (ht : s.tm.refillPacingTimer = some due) (hdue : ¬ due > s.io.now) :
    Turn s (updatePacingTime (clearPacing s))
  | release (s : Stream) (hs : s.st.closed = true) : Turn s (releaseHandles s)
  -- round trips
  | take (seq : SeqNo) (k : ℕ) (sack : Bool) (s : Stream) : Turn s (takeAcked seq k sack s)
  -- the window
  | raise (c : ℕ) (s : Stream) (hc : s.cc.cwnd ≤ c) : Turn s (s.withCc fun cc => { cc with cwnd := c })
  | unconserve (f : Bbr → Bbr) (s : Stream) (hprev : (f s.cc.bbr).prevCaState = s.cc.bbr.prevCaState)
    (hoff : (f s.cc.bbr).usePacketConservation = false) : Turn s (s.withBbr f)
  | setCwnd (rs : RateSample) (acked : ℕ) (s : Stream) : Turn s (bbrSetCwnd env rs acked s)
  | rto (n : ℕ) (s : Stream) : Turn s (bbrOnRto (s.withCc fun cc => { cc with cwnd := n + 1 }))

/-- Runs of turns. -/
abbrev Turns : Stream → Stream → Prop := Relation.ReflTransGen (Turn env)

variable {env}

namespace Turns

variable {s t u : Stream}

theorem refl (s : Stream) : Turns env s s := Relation.ReflTransGen.refl

section

variable (h : Turns env s t)
include h

theorem still (ht : u.tuned = t.tuned) (hc : t.st.closed = true → u.st.closed = true)
    (hl : u.log = t.log) : Turns env s u :=
  h.tail (.rest ⟨ht, hc, [], hl, by simp⟩)

theorem note {e : Entry} (he : e.turning = false) : Turns env s (t.note e) :=
  h.tail (.rest ⟨rfl, id, [e], rfl, by simpa using he⟩)

theorem check {a : Site} (ha : a.window = false) (p : Prop) [Decidable p] : Turns env s (t.check a p) := by
  unfold Stream.check
  split
  · exact h
  · exact h.note ha

theorem announce (on : Bool) (c : Callback) : Turns env s (t.announce on c) := by
  unfold Stream.announce
  split
  · exact h.note rfl
  · exact h

theorem withCc {f : Cc → Cc} (hf : (t.withCc f).tuned = t.tuned) : Turns env s (t.withCc f) :=
  h.still hf id rfl

theorem withBbr {f : Bbr → Bbr} (hf : (f t.cc.bbr).prevCaState = t.cc.bbr.prevCaState ∧
    (f t.cc.bbr).usePacketConservation = t.cc.bbr.usePacketConservation) : Turns env s (t.withBbr f) :=
  h.still (congrArg₂ (fun p c => { t.tuned with prevCaState := p, usePacketConservation := c })
    hf.1 hf.2) id rfl

theorem withTx (f : Tx → Tx) : Turns env s (t.withTx f) := h.still rfl id rfl

theorem setPkt (k : ℕ) (f : Packet → Packet) : Turns env s (t.withTx fun tx => tx.setPkt k f) :=
  h.withTx _

theorem withMtu (f : Mtu → Mtu) : Turns env s (t.withMtu f) := h.still rfl id rfl

theorem withTm {f : Timers → Timers} (hf : (f t.tm).refillPacingTimer = t.tm.refillPacingTimer) :
    Turns env s (t.withTm f) :=
  h.still (congrArg (fun r => { t.tuned with refillPacingTimer := r }) hf) id rfl

theorem asked : Turns env s t.asked := h.still rfl id rfl

theorem copies (l : List UvCopy) : Turns env s (t.withIo fun io => { io with copies := l }) :=
  h.still rfl id rfl

/-! ### The send path -/

theorem updatePacingTime : Turns env s (updatePacingTime t) := h.tail (.refill t)

theorem streamMaySend (retransmit : Bool) : Turns env s (streamMaySend retransmit t).1 := by
  have hcheck : Turns env s (t.check .cwndPositive (t.cc.cwnd > 0)) := h.tail (.mayCheck t)
  unfold Udx.streamMaySend
  dsimp only
  split_ifs <;> exact hcheck.updatePacingTime

theorem udxRateCheckAppLimited : Turns env s (udxRateCheckAppLimited t) := by
  unfold Udx.udxRateCheckAppLimited
  split
  · exact h.withCc rfl
  · exact h

theorem rateFlightStart : Turns env s (rateFlightStart t) := by
  unfold Udx.rateFlightStart
  split
  · exact h.withCc rfl
  · exact h

theorem bbrInitPacingRateFromRtt : Turns env s (bbrInitPacingRateFromRtt env t) := by
  have hseen := h.check (a := .bbrInitBw) rfl (t.cc.cwnd ≠ 0)
  unfold Udx.bbrInitPacingRateFromRtt
  exact (hseen.withBbr ⟨rfl, rfl⟩).withCc rfl

theorem bbrSetPacingRate : Turns env s (bbrSetPacingRate env t) := by
  have hsee : Turns env s (bbrSeeRtt env t) := by
    unfold bbrSeeRtt
    split
    · exact h.bbrInitPacingRateFromRtt
    · exact h
  unfold Udx.bbrSetPacingRate bbrRaisePacingRate
  split
  · exact hsee.withCc rfl
  · exact hsee

theorem bbrSaveCwnd : Turns env s (bbrSaveCwnd t) := by
  unfold Udx.bbrSaveCwnd
  split <;> exact h.withBbr ⟨rfl, rfl⟩

theorem bbrResetMode : Turns env s (bbrResetMode t) := by
  unfold Udx.bbrResetMode
  split
  · exact h.withBbr ⟨rfl, rfl⟩
  · unfold bbrResetProbeBwMode bbrAdvanceCyclePhase
    exact (h.withBbr ⟨rfl, rfl⟩).withBbr ⟨rfl, rfl⟩

theorem bbrCheckProbeRttDone (now : ℕ) : Turns env s (bbrCheckProbeRttDone now t) := by
  unfold Udx.bbrCheckProbeRttDone
  split
  · have hstamp : Turns env s (t.withBbr fun bbr => { bbr with minRttStamp := now }) := h.withBbr ⟨rfl, rfl⟩
    refine Turns.bbrResetMode (hstamp.tail (.raise _ _ ?_))
    exact Nat.le_max_left ..
  · exact h

theorem bbrOnTransmitStart : Turns env s (bbrOnTransmitStart env t) := by
  unfold Udx.bbrOnTransmitStart
  split
  · split
    · exact (h.withBbr ⟨rfl, rfl⟩).bbrSetPacingRate
    · exact (h.withBbr ⟨rfl, rfl⟩).bbrCheckProbeRttDone _
    · exact h.withBbr ⟨rfl, rfl⟩
  · exact h

theorem transmitStart (empty : Bool) : Turns env s (transmitStart env empty t) := by
  unfold Udx.transmitStart
  split
  · exact h.bbrOnTransmitStart
  · exact h

/-! ### Timers -/

theorem streamTimerStart (timer : Timer) (ms : ℕ) : Turns env s (streamTimerStart timer ms t) := by
  unfold Udx.streamTimerStart
  exact h.withTm rfl

theorem streamTimerStop : Turns env s (streamTimerStop t) := by
  unfold Udx.streamTimerStop
  exact h.withTm rfl

theorem rearmRto (fromNow : Bool) : Turns env s (rearmRto fromNow t) := by
  unfold Udx.rearmRto
  split
  · exact h.streamTimerStop
  · split
    · exact h.streamTimerStart _ _
    · unfold rearmSavedRto
      exact (h.check rfl _).streamTimerStart _ _

theorem scheduleLossProbe (advancing : Bool) : Turns env s (scheduleLossProbe advancing t).1 := by
  unfold Udx.scheduleLossProbe
  split
  · exact h
  · exact h.streamTimerStart _ _

theorem armStreamTimers (tlp : Bool) : Turns env s (armStreamTimers tlp t) := by
  have hcheck : Turns env s (checkArm t) := by
    unfold checkArm
    exact (((h.check rfl _).check rfl _).check rfl _).check rfl _
  have hrto : Turns env s (armRto (checkArm t)) := by
    unfold armRto
    split
    · exact hcheck.streamTimerStart _ _
    · exact hcheck
  have htlp : Turns env s (armTlp (armRto (checkArm t))) := by
    unfold armTlp
    split
    · exact hrto.scheduleLossProbe _
    · exact hrto
  unfold Udx.armStreamTimers
  split
  · exact htlp
  · exact hrto

/-! ### Sending a packet -/

theorem sendCopy (k : Kind) (dest : Dest) (d : List UInt8) : Turns env s (sendCopy env k dest d t) := by
  have hhand : Turns env s (t.note (.handed k dest)) := h.note rfl
  unfold Udx.sendCopy
  dsimp only
  split
  · exact (hhand.note rfl).asked
  · split
    · exact (hhand.copies _).asked
    · exact hhand.asked
  · exact hhand.asked

theorem sendProbe : Turns env s (sendProbe env t) := by
  unfold Udx.sendProbe
  split
  · exact h
  · exact h.sendCopy _ _ _

theorem mtuProbeifyPacket (k size : ℕ) : Turns env s (mtuProbeifyPacket k size t).1 := by
  unfold Udx.mtuProbeifyPacket
  dsimp only
  split_ifs
  · exact h
  · exact h.check rfl _
  · exact (h.check rfl _).setPkt _ _

theorem mtuUnprobeifyPacket (k : ℕ) : Turns env s (mtuUnprobeifyPacket k t) := by
  unfold Udx.mtuUnprobeifyPacket
  exact (h.setPkt _ _).withMtu _

theorem queuePacket (k : ℕ) (send : UvSend) : Turns env s (queuePacket env k send t) := by
  unfold Udx.queuePacket
  dsimp only
  split
  · exact ((h.setPkt _ _).check rfl _).withTx _
  · exact ((h.setPkt _ _).check rfl _).setPkt _ _

theorem handPacket (k : ℕ) : Turns env s (handPacket env k t) := by
  unfold Udx.handPacket
  dsimp only
  split
  · exact ((h.note rfl).note rfl).asked
  · exact ((h.note rfl).queuePacket k _).asked
  · exact (h.note rfl).asked

theorem spendTokens (size : ℕ) : Turns env s (spendTokens size t) := h.tail (.spend size t)

theorem unlinkIfLost (k : ℕ) : Turns env s (t.withTx fun tx => tx.unlinkIfLost k) := h.withTx _

theorem _sendPacket (k : ℕ) (isRetransmit : Bool) : Turns env s (_sendPacket env k isRetransmit t) := by
  have hflight := h.udxRateCheckAppLimited.rateFlightStart
  have hpush {x : Stream} (hx : Turns env s x) :
      Turns env s (x.withTx fun tx => (tx.unlinkIfLost k).pushInflight k) := by
    show Turns env s ((x.withTx fun tx => tx.unlinkIfLost k).withTx fun tx => tx.pushInflight k)
    exact (hx.unlinkIfLost k).withTx _
  unfold Udx._sendPacket
  exact ((hpush (hflight.setPkt _ _)).handPacket k).spendTokens _

theorem resetNextPacket : Turns env s (resetNextPacket t) := by
  unfold Udx.resetNextPacket
  exact (h.withTx _).withTm rfl

theorem bindPacketRemote (k : ℕ) : Turns env s (bindPacketRemote k t) := by
  unfold Udx.bindPacketRemote
  exact ((h.note rfl).check rfl _).setPkt _ _

theorem stampNewPacket (tlp : Bool) : Turns env s (stampNewPacket env tlp t).1 := by
  have hbind : Turns env s (bindIfUnbound t.tx.pkt t) := by
    unfold bindIfUnbound
    split
    · exact h.bindPacketRemote _
    · exact h
  have hnumber : Turns env s (numberPacket env t.tx.pkt (bindIfUnbound t.tx.pkt t)) := by
    unfold numberPacket
    exact hbind.setPkt _ _
  unfold Udx.stampNewPacket probeIfWanted
  dsimp only
  split
  · exact hnumber.mtuProbeifyPacket _ _
  · exact hnumber

theorem countNewPacket (tlp mtuProbe : Bool) (seq : SeqNo) :
    Turns env s (countNewPacket tlp mtuProbe seq t) := by
  unfold Udx.countNewPacket
  refine (h.withMtu _).withCc ?_
  split <;> rfl

theorem advanceSeq : Turns env s (t.withTx Tx.advanceSeq) := h.withTx _

theorem _sendNewPacket (tlp : Bool) : Turns env s (_sendNewPacket env tlp t) := by
  have hcheck := h.check (a := .headerFlag) rfl (t.tx.pktHeaderFlag &&& ~~~UDX_HEADER_DATA_OR_END = 0)
  unfold Udx._sendNewPacket
  dsimp only
  apply Turns.resetNextPacket
  refine Turns.check ?_ rfl _
  apply Turns.armStreamTimers
  apply Turns.countNewPacket
  apply Turns.transmitStart
  apply Turns.advanceSeq
  apply Turns._sendPacket
  exact (hcheck.stampNewPacket tlp).withTx _

/-! ### Filling a packet -/

theorem packetize (b len : ℕ) : Turns env s (t.withTx fun tx => tx.packetize b len) := h.withTx _

theorem fillSlice (b : ℕ) : Turns env s (fillSlice b t) := by
  unfold Udx.fillSlice
  dsimp only
  split
  · exact ((h.packetize _ _).bindPacketRemote _).withTx _
  · exact h.packetize _ _

theorem fillPacket (queue : List ℕ) : Turns env s (fillPacket queue t) := by
  induction queue generalizing t with
  | nil => exact h
  | cons b rest ih =>
    unfold Udx.fillPacket
    dsimp only
    split_ifs
    · exact h
    · exact ih ((h.fillSlice b).withTx _)
    · exact h.fillSlice b

theorem buildPacket (tlp : Bool) : Turns env s (buildPacket env tlp t).1 := by
  have hfill := h.fillPacket t.tx.writeQueue
  unfold Udx.buildPacket
  dsimp only
  split_ifs
  · exact hfill._sendNewPacket tlp
  · dsimp only
    exact hfill.withTm rfl
  · exact hfill

theorem sendNewPacket (tlp : Bool) : Turns env s (sendNewPacket env tlp t).1 := by
  unfold Udx.sendNewPacket
  dsimp only
  split_ifs
  · exact h
  · exact h.streamMaySend _
  · exact (h.streamMaySend _).buildPacket tlp

/-! ### Loops -/

theorem retransmitPacket (k : ℕ) : Turns env s (retransmitPacket env k t) := by
  unfold Udx.retransmitPacket
  exact (((h.setPkt _ _)._sendPacket k true).transmitStart _).armStreamTimers _

theorem retransmitLoop (n : ℕ) : Turns env s (retransmitLoop env n t) := by
  induction n generalizing t with
  | zero => exact h
  | succ n ih =>
    unfold Udx.retransmitLoop
    split
    · exact h
    · dsimp only
      split
      · exact ih ((h.streamMaySend _).retransmitPacket _)
      · exact h.streamMaySend _

theorem newPacketLoop (n : ℕ) : Turns env s (newPacketLoop env n t) := by
  induction n generalizing t with
  | zero => exact h
  | succ n ih =>
    unfold Udx.newPacketLoop
    dsimp only
    split
    · exact ih (h.sendNewPacket _)
    · exact h.sendNewPacket _

theorem sendPackets : Turns env s (sendPackets env t) := by
  unfold Udx.sendPackets
  exact ((h.check rfl _).retransmitLoop _).newPacketLoop _

/-! ### Probes and loss detection -/

theorem tlpFromExisting (k : ℕ) : Turns env s (tlpFromExisting env k t) := by
  have hunlink := h.withTx fun tx => tx.unlinkInflight k
  unfold Udx.tlpFromExisting
  have hsend := hunlink.retransmitPacket k
  generalize Udx.retransmitPacket env k (t.withTx fun tx => tx.unlinkInflight k) = x at hsend ⊢
  exact hsend.withCc rfl

theorem sendLossProbe : Turns env s (sendLossProbe env t) := by
  have hnew := h.sendNewPacket true
  unfold Udx.sendLossProbe
  dsimp only
  split
  · exact hnew.rearmRto _
  · split
    · exact hnew.rearmRto _
    · exact (hnew.tlpFromExisting _).rearmRto _

theorem udxTlpTimeout : Turns env s (udxTlpTimeout env t) := by
  have hcheck := h.check (a := .tlpConnected) rfl (t.st.connected = true)
  unfold Udx.udxTlpTimeout
  dsimp only
  split_ifs
  · exact hcheck
  · exact hcheck.rearmRto _
  · exact hcheck.sendLossProbe

theorem unprobeIfProbe (k : ℕ) : Turns env s (unprobeIfProbe k t) := by
  unfold Udx.unprobeIfProbe
  split
  · exact h.mtuUnprobeifyPacket k
  · exact h

theorem rackMarkLost (k : ℕ) : Turns env s (rackMarkLost k t) := by
  have hcheck := (h.withCc (f := fun cc => { cc with lost := cc.lost + 1 }) rfl).check (a := .rackSize) rfl
    ((t.tx.pkts k).size > 0 ∧ (t.tx.pkts k).size < 1500)
  unfold Udx.rackMarkLost
  exact (hcheck.withTx _).unprobeIfProbe k

theorem rackLoop (reoWnd : ℕ) (queue : List ℕ) (acc : RackAcc) :
    Turns env s (rackLoop reoWnd queue acc t).1 := by
  induction queue generalizing t acc with
  | nil => exact h
  | cons k rest ih =>
    have hcheck := h.check (a := .rackTransmits) rfl ((t.tx.pkts k).transmits > 0)
    unfold Udx.rackLoop
    dsimp only
    split
    · exact hcheck
    · exact ih hcheck _
    · exact ih (hcheck.rackMarkLost k) _
    · exact ih hcheck _

theorem rackEnterRecovery (acc : RackAcc) : Turns env s (rackEnterRecovery acc t) := by
  have hforgive : Turns env s (rackForgiveProbes acc t) := by
    unfold rackForgiveProbes
    split
    · exact h.withCc rfl
    · exact h
  unfold Udx.rackEnterRecovery
  dsimp only
  split
  · exact (hforgive.withCc rfl).bbrSaveCwnd.withCc rfl
  · exact hforgive

theorem rackDetectLoss : Turns env s (rackDetectLoss env t).1 := by
  unfold Udx.rackDetectLoss
  exact ((h.rackLoop _ _ _).rackEnterRecovery _).sendPackets

theorem rackDetectLossAndArmTimer : Turns env s (rackDetectLossAndArmTimer env t).1 := by
  unfold Udx.rackDetectLossAndArmTimer
  dsimp only
  split
  · exact ((h.rackDetectLoss).check rfl _).streamTimerStart _ _
  · exact h.rackDetectLoss

theorem udxRackReoTimeout : Turns env s (udxRackReoTimeout env t) := by
  unfold Udx.udxRackReoTimeout rackRearm
  split
  · exact (h.rackDetectLoss).rearmRto _
  · exact h.rackDetectLoss

theorem udxKeepaliveTimeout : Turns env s (udxKeepaliveTimeout env t) := by
  unfold Udx.udxKeepaliveTimeout
  exact ((h.check rfl _).sendProbe).streamTimerStart _ _

theorem udxZwpTimeout : Turns env s (udxZwpTimeout env t) := by
  unfold Udx.udxZwpTimeout
  dsimp only
  apply Turns.streamTimerStart
  refine Turns.check ?_ rfl _
  refine Turns.check ?_ rfl _
  apply Turns.sendProbe
  exact (((h.check rfl _).check rfl _).check rfl _).withTm rfl

theorem pacingTimerTimeout : Turns env s (pacingTimerTimeout env t) := by
  unfold Udx.pacingTimerTimeout
  exact h.updatePacingTime.sendPackets

/-! ### After an acknowledgement -/

theorem startKeepalive : Turns env s (startKeepalive t) := by
  unfold Udx.startKeepalive
  split
  · exact h.streamTimerStart _ _
  · exact h.streamTimerStop

theorem timerEnded : Turns env s (timerEnded t) := by
  unfold Udx.timerEnded
  split
  · exact h.startKeepalive
  · exact h

theorem timerDelivered : Turns env s (timerDelivered t) := by
  unfold Udx.timerDelivered
  split
  · unfold timerFullAck
    dsimp only
    split
    · exact (h.check rfl _).streamTimerStart _ _
    · exact (h.check rfl _).startKeepalive
  · exact h.withTm rfl

theorem settleAcks (p : RxPacket) (delivered : ℕ) : Turns env s (settleAcks env p delivered t) := by
  have harm : ∀ {x : Stream}, Turns env s x → Turns env s (armRtoOrTlp x) := by
    intro x hx
    unfold armRtoOrTlp
    dsimp only
    split
    · exact hx.scheduleLossProbe _
    · exact (hx.scheduleLossProbe _).rearmRto _
  unfold Udx.settleAcks afterDelivery
  dsimp only
  split_ifs
  · exact harm (h.timerDelivered.rackDetectLossAndArmTimer)
  · exact h.timerDelivered.rackDetectLossAndArmTimer
  · exact harm h
  · exact h

/-! ### BBR -/

theorem bbrUpdateBw (rs : RateSample) : Turns env s (bbrUpdateBw rs t) := by
  have hround : Turns env s (t.withBbr fun bbr => { bbr with roundStart := false }) := h.withBbr ⟨rfl, rfl⟩
  unfold Udx.bbrUpdateBw bbrStartRound
  dsimp only
  split_ifs
  · exact hround
  · refine Turns.check (hround.tail ?_) rfl _
    exact .unconserve (fun bbr => { bbr with
      nextRttDelivered := t.cc.delivered
      rttCount := add32 bbr.rttCount 1
      roundStart := true
      usePacketConservation := false }) _ rfl rfl
  · exact hround.check rfl _

theorem bbrCountAcked (expected acked : ℕ) : Turns env s (bbrCountAcked expected acked t) := by
  have hmax : ∀ extra bbr, (bbrMaxExtraAcked extra bbr).prevCaState = bbr.prevCaState ∧
      (bbrMaxExtraAcked extra bbr).usePacketConservation = bbr.usePacketConservation := by
    intro extra bbr
    unfold bbrMaxExtraAcked
    split_ifs <;> exact ⟨rfl, rfl⟩
  unfold Udx.bbrCountAcked
  exact ((h.check rfl _).withBbr ⟨rfl, rfl⟩).withBbr (hmax _ _)

theorem bbrUpdateAckAggregation (rs : RateSample) : Turns env s (bbrUpdateAckAggregation env rs t) := by
  have hrotate : ∀ bbr, (bbrRotateExtraAcked bbr).prevCaState = bbr.prevCaState ∧
      (bbrRotateExtraAcked bbr).usePacketConservation = bbr.usePacketConservation := by
    intro bbr
    unfold bbrRotateExtraAcked bbrClearExtraAcked
    dsimp only
    split_ifs <;> exact ⟨rfl, rfl⟩
  unfold Udx.bbrUpdateAckAggregation
  dsimp only
  split_ifs
  · exact h
  · exact ((h.withBbr (hrotate _)).withBbr ⟨rfl, rfl⟩).bbrCountAcked _ _
  · exact (h.withBbr (hrotate _)).bbrCountAcked _ _

theorem bbrAdvanceCyclePhase : Turns env s (bbrAdvanceCyclePhase t) := by
  unfold Udx.bbrAdvanceCyclePhase
  exact h.withBbr ⟨rfl, rfl⟩

theorem bbrUpdateCyclePhase (rs : RateSample) : Turns env s (bbrUpdateCyclePhase env rs t) := by
  unfold Udx.bbrUpdateCyclePhase
  split
  · exact h.bbrAdvanceCyclePhase
  · exact h

theorem bbrCheckFullBwReached (rs : RateSample) : Turns env s (bbrCheckFullBwReached env rs t) := by
  unfold Udx.bbrCheckFullBwReached
  split_ifs
  · exact h
  · exact h.withBbr ⟨rfl, rfl⟩
  · exact h.withBbr ⟨rfl, rfl⟩

theorem bbrCheckDrain : Turns env s (bbrCheckDrain env t) := by
  have hdrain : Turns env s (bbrStartDrain t) := by
    unfold bbrStartDrain
    split
    · exact h.withBbr ⟨rfl, rfl⟩
    · exact h
  unfold Udx.bbrCheckDrain
  dsimp only
  split
  · unfold bbrResetProbeBwMode
    exact (hdrain.withBbr ⟨rfl, rfl⟩).bbrAdvanceCyclePhase
  · exact hdrain

theorem bbrProbeRtt (now : ℕ) : Turns env s (bbrProbeRtt now t) := by
  have hlimit := h.withCc (f := fun cc => { cc with
    appLimited := orOne (cc.delivered + BitVec.ofNat 32 t.tx.inflightQueue.length) }) rfl
  unfold Udx.bbrProbeRtt bbrProbeRttRound
  dsimp only
  split_ifs
  · exact hlimit.withBbr ⟨rfl, rfl⟩
  · exact (hlimit.withBbr ⟨rfl, rfl⟩).bbrCheckProbeRttDone _
  · exact hlimit.withBbr ⟨rfl, rfl⟩
  · exact hlimit

theorem bbrUpdateMinRtt (rs : RateSample) : Turns env s (bbrUpdateMinRtt rs t) := by
  have htake : Turns env s (bbrTakeMinRtt rs (bbrFilterExpired t) t) := by
    unfold bbrTakeMinRtt
    split
    · exact h.withBbr ⟨rfl, rfl⟩
    · exact h
  have henter : ∀ {x : Stream}, Turns env s x → Turns env s (bbrEnterProbeRtt (bbrFilterExpired t) x) := by
    intro x hx
    unfold bbrEnterProbeRtt
    split
    · exact ((hx.withBbr ⟨rfl, rfl⟩).bbrSaveCwnd).withBbr ⟨rfl, rfl⟩
    · exact hx
  have hin : ∀ {x : Stream}, Turns env s x → Turns env s (bbrInProbeRtt x) := by
    intro x hx
    unfold bbrInProbeRtt
    split
    · exact hx.bbrProbeRtt _
    · exact hx
  unfold Udx.bbrUpdateMinRtt
  exact (hin (henter htake)).withBbr ⟨rfl, rfl⟩

theorem bbrUpdateGains : Turns env s (bbrUpdateGains t) := by
  unfold Udx.bbrUpdateGains
  exact h.withBbr ⟨rfl, rfl⟩

theorem bbrUpdateModel (rs : RateSample) : Turns env s (bbrUpdateModel env rs t) := by
  have hbw := (h.bbrUpdateBw rs).bbrUpdateAckAggregation rs
  have hphase := (hbw.bbrUpdateCyclePhase rs).bbrCheckFullBwReached rs
  have hmin := (hphase.bbrCheckDrain).bbrUpdateMinRtt rs
  unfold Udx.bbrUpdateModel
  exact hmin.bbrUpdateGains

theorem bbrSetCwnd (rs : RateSample) (acked : ℕ) : Turns env s (bbrSetCwnd env rs acked t) :=
  h.tail (.setCwnd rs acked t)

theorem bbrMain (rs : RateSample) : Turns env s (bbrMain env rs t) := by
  unfold Udx.bbrMain
  exact (((h.bbrUpdateModel rs).bbrSetPacingRate).bbrSetCwnd rs _).asked

/-! ### Calls -/

theorem setRemoteAddr (socket : Option Socket) (addr : SockAddr) :
    Turns env s (setRemoteAddr socket addr t).1 := by
  unfold Udx.setRemoteAddr
  dsimp only
  split_ifs <;> exact h.still rfl id rfl

theorem connectBind (socket : Socket) (id : SeqNo) (addr : SockAddr) :
    Turns env s (connectBind env socket id addr t).1 := by
  have hconn : Turns env s ((t.withSt fun st => { st with connected := true }).withPeer fun peer =>
      { peer with remoteId := id, socket := some socket }) := h.still rfl (fun x => x) rfl
  have haddr := hconn.setRemoteAddr (some socket) addr
  unfold Udx.connectBind
  dsimp only
  split
  · exact haddr.still rfl (fun x => x) rfl
  · exact haddr

theorem connectKeepalive : Turns env s (connectKeepalive t) := by
  have hnote : Turns env s (t.note (.reached .connectKeepalive t.toCore)) := h.note rfl
  unfold Udx.connectKeepalive
  dsimp only
  split
  · exact hnote.streamTimerStart _ _
  · exact hnote

theorem ackOut : Turns env s (ackOut env t) := by
  have hsend := h.sendCopy .ack t.peer.dest (ackDatagram env t)
  unfold Udx.ackOut
  dsimp only
  split
  · have hended : Turns env s (setEndedRemote (Udx.sendCopy env .ack t.peer.dest (ackDatagram env t) t)) :=
      hsend.still rfl id rfl
    exact hended.announce _ _
  · exact hsend

theorem markDead : Turns env s (markDead t) := by
  unfold Udx.markDead
  split
  · exact h
  · exact h.note rfl

theorem closeStart (err : CloseErr) : Turns env s (closeStart env err t) := by
  have hset : Turns env s (setClosed (Udx.markDead (t.check .closeTwice (t.st.closed = false)))) :=
    (h.check (a := .closeTwice) rfl _).markDead.still rfl (fun _ => rfl) rfl
  have hbegin : Turns env s (closeBegin env t) := by
    unfold closeBegin
    dsimp only
    split
    · exact hset.still rfl id rfl
    · exact hset
  unfold Udx.closeStart
  exact hbegin.announce _ _

theorem closeUnlessDestroying (err : CloseErr) : Turns env s (closeUnlessDestroying env err t) := by
  have hdrop : Turns env s (dropTimewaitOnError err t) := by
    unfold dropTimewaitOnError
    split
    · exact h.still rfl id rfl
    · exact h
  unfold Udx.closeUnlessDestroying
  dsimp only
  split
  · exact hdrop
  · exact hdrop.closeStart err

theorem closeEnded : Turns env s (closeEnded env t) := by
  unfold Udx.closeEnded checkEnded
  exact ((h.check rfl _).check rfl _).closeUnlessDestroying _

theorem destroyStart : Turns env s (destroyStart env t) := by
  have hset : Turns env s (setDestroying t) := by
    unfold setDestroying
    exact h.markDead.still rfl id rfl
  have hreach : Turns env s ((setDestroying t).note (.reached .destroySend (setDestroying t).toCore)) :=
    hset.note rfl
  unfold Udx.destroyStart
  dsimp only
  split
  · exact hset.closeStart .none
  · unfold destroySend queueCopy
    exact (hreach.withTx Tx.advanceSeq).sendCopy _ _ _

theorem relayGone : Turns env s (relayGone env t) := by
  have hclear : Turns env s (clearRelayTo t) := h.still rfl id rfl
  have hdrop : Turns env s (dropTimewait (clearRelayTo t)) := hclear.still rfl id rfl
  unfold Udx.relayGone
  dsimp only
  split_ifs
  · exact hclear
  · exact hdrop.closeStart .none
  · exact hdrop.destroyStart

theorem countBytes (b bytes : ℕ) (cancelled : Bool) : Turns env s (countBytes b bytes cancelled t) := by
  have hbounds : ∀ {x : Stream}, Turns env s x → ∀ (p q r : Prop) [Decidable p] [Decidable q]
      [Decidable r], Turns env s (((x.check .wbufAcked p).check .writeAcked q).check .writesQueued r) :=
    fun hx p q r _ _ _ => ((hx.check rfl p).check rfl q).check rfl r
  have hcheck : Turns env s (checkBytes b bytes cancelled t) := by
    unfold checkBytes
    dsimp only
    split
    · exact hbounds h ..
    · exact hbounds (h.check (a := .bytesInflight) rfl _) ..
  unfold Udx.countBytes
  exact hcheck.withTx _

theorem changeRemote (socket : Socket) (id : SeqNo) (cb : Bool) :
    Turns env s (changeRemote socket id cb t).1 := by
  obtain ⟨peer, changed, capacity, heq⟩ := changeRemote_eq socket id cb t
  rw [heq]
  exact h.still rfl (fun x => x) rfl

theorem writeResult : Turns env s (writeResult t).1 := by
  unfold Udx.writeResult
  split
  · exact h.still rfl id rfl
  · exact h

theorem _udxStreamWrite (bufs : List (List UInt8)) (onAck e : Bool) :
    Turns env s (_udxStreamWrite env bufs onAck e t) := by
  have hprobe : Turns env s (queueWrite env bufs onAck e t) := by
    unfold queueWrite probeWindow
    dsimp only
    split
    · exact (h.withTx _).sendProbe.streamTimerStart _ _
    · exact h.withTx _
  unfold Udx._udxStreamWrite
  exact hprobe.sendPackets

/-- One case for each call that never calls back. -/
theorem runCall_plain {c : Call} (hc : c.plain = true) : Turns env s (runCall env Hook.quiet c t).1 := by
  cases c with
  | connect socket id addr => cases hc
  | send data onSend => cases hc
  | destroy => cases hc
  | teardown => cases hc
  | changeRemote socket id addr cb =>
    have haddr := h.setRemoteAddr t.peer.socket addr
    simp only [runCall, udxStreamChangeRemote]
    split_ifs
    · exact h
    · exact h
    · exact haddr
    · exact haddr.changeRemote _ _ _
  | relayTo destinationClosed =>
    simp only [runCall, udxStreamRelayTo]
    split <;> exact h.still rfl (fun x => x) rfl
  | setKeepalive ms =>
    simp only [runCall, udxStreamSetKeepalive]
    split <;> exact h.still rfl (fun x => x) rfl
  | setRwndMax size => exact h.still rfl (fun x => x) rfl
  | firewall set => exact h.still rfl (fun x => x) rfl
  | recvStart =>
    simp only [runCall, udxStreamRecvStart]
    split <;> exact h.still rfl (fun x => x) rfl
  | recvStop =>
    simp only [runCall, udxStreamRecvStop]
    split <;> exact h.still rfl (fun x => x) rfl
  | readStart =>
    simp only [runCall, udxStreamReadStart]
    split <;> exact h.still rfl (fun x => x) rfl
  | readStop =>
    simp only [runCall, udxStreamReadStop]
    split <;> exact h.still rfl (fun x => x) rfl
  | writeResume set => exact h.still rfl (fun x => x) rfl
  | write bufs onAck =>
    simp only [runCall, udxStreamWrite]
    split_ifs
    · exact h
    · exact h
    · exact h
    · exact (h._udxStreamWrite _ _ _).writeResult
  | writeEnd bufs onAck =>
    have hset : Turns env s (setEnding t) := h.still rfl (fun x => x) rfl
    simp only [runCall, udxStreamWriteEnd]
    split_ifs
    · exact h
    · exact h
    all_goals exact (hset._udxStreamWrite _ _ _).writeResult

/-! ### Expiries -/

theorem rtoStart : Turns env s (rtoStart t) := by
  have hout : Turns env s (((t.withTm fun tm => { tm with pendingTimer := .none }).check .rtoConnected
      (t.st.connected = true)).check .rtoOutstanding (t.tx.remoteAcked ≠ t.tx.seq)) :=
    ((h.withTm rfl).check rfl _).check rfl _
  unfold Udx.rtoStart
  dsimp only
  rw [Stream.check_tx, show (t.withTm fun tm => { tm with pendingTimer := .none }).tx = t.tx from rfl,
    show (t.withTm fun tm => { tm with pendingTimer := .none }).st = t.st from rfl]
  generalize ((t.withTm fun tm => { tm with pendingTimer := .none }).check .rtoConnected
      (t.st.connected = true)).check .rtoOutstanding (t.tx.remoteAcked ≠ t.tx.seq) = x at hout ⊢
  have henter : Turns env s (rtoEnterLoss x) := by
    unfold rtoEnterLoss
    exact hout.bbrSaveCwnd.withCc rfl
  unfold rtoBackOff
  exact (((henter.withTm rfl).check rfl _).streamTimerStart _ _).withTx _

theorem rtoLook (reoWnd k : ℕ) : Turns env s (rtoLook reoWnd k t) := by
  have hlost : Turns env s (Udx.unprobeIfProbe k (t.withCc fun cc => { cc with lost := cc.lost + 1 })) :=
    Turns.unprobeIfProbe (h.withCc rfl) k
  unfold Udx.rtoLook rtoKeepLost rtoMarkLost
  dsimp only
  split_ifs
  · exact h.withTx _
  · exact hlost
  · exact hlost.withTx _
  · exact h

theorem rtoLoop (reoWnd n : ℕ) (seq : SeqNo) : Turns env s (rtoLoop reoWnd n seq t) := by
  induction n generalizing t seq with
  | zero => exact h
  | succ n ih =>
    unfold Udx.rtoLoop
    split
    · exact ih h _
    · exact ih (h.rtoLook _ _) _

theorem rtoResend : Turns env s (rtoResend env t) := by
  have hloop := h.rtoLoop (rackUpdateReoWnd t) (t.tx.seq - t.tx.remoteAcked).toNat t.tx.remoteAcked
  unfold Udx.rtoResend
  exact Turns.sendPackets (hloop.tail (.rto _ _))

theorem clearTimer : Turns env s (clearTimer t) := h.withTm rfl

end

/-- The stream timer, where its expiry does not call back. -/
theorem fireTimer (hq : Event.quiet t .timer = true) : Turns env t (fireTimer env Hook.quiet t) := by
  unfold Udx.fireTimer
  cases htimer : t.tm.timer with
  | none => exact refl t
  | some x =>
    obtain ⟨timer, due⟩ := x
    have hclear : Turns env t (Udx.clearTimer t) := (refl t).clearTimer
    dsimp only
    split
    · exact refl t
    next hdue =>
    cases timer with
    | none => exact hclear
    | rto =>
      have hcount : (t.tm.rtoCount + 1) % 2 ^ 8 ≤ UDX_MAX_RTO_TIMEOUTS := by
        simp only [Event.quiet, htimer, Bool.or_eq_true, decide_eq_true_eq] at hq
        exact hq.resolve_left hdue
      simp only [runTimer]
      rw [udxRtoTimeout_quiet (s := Udx.clearTimer t) hcount]
      exact hclear.rtoStart.rtoResend
    | rackReo => exact hclear.udxRackReoTimeout
    | tlp => exact hclear.udxTlpTimeout
    | zwp => exact hclear.udxZwpTimeout
    | keepalive => exact hclear.udxKeepaliveTimeout

theorem firePacing (t : Stream) : Turns env t (firePacing env t) := by
  unfold Udx.firePacing
  cases ht : t.tm.refillPacingTimer with
  | none => exact refl t
  | some due =>
    dsimp only
    split
    · exact refl t
    · next hdue =>
      unfold Udx.pacingTimerTimeout
      exact Turns.sendPackets ((refl t).tail (.firePacing due t ht hdue))

theorem firePrepare (t : Stream) : Turns env t (firePrepare env t) := by
  unfold Udx.firePrepare
  split
  · exact (refl t)._sendNewPacket false
  · exact refl t

/-- One case for each event that calls nothing back. -/
theorem runEvent_quiet {e : Event} (hq : e.quiet t = true) : Turns env t (runEvent env Hook.quiet e t) := by
  have ht : Turns env t t := refl t
  cases e with
  | call c => cases hq
  | recv d same => cases hq
  | relayClosed => cases hq
  | timer => exact fireTimer hq
  | pacing => exact firePacing t
  | prepare => exact firePrepare t
  | uvSent i =>
    simp only [runEvent, uvSent]
    split
    · exact ht
    · split
      · exact ht
      · exact Turns.still (ht.note (e := .wire _ _ _) rfl) rfl id rfl
  | uvDone i =>
    simp only [runEvent, uvDone]
    split
    · exact ht
    · exact ht.still rfl id rfl
  | copySent i =>
    simp only [runEvent, copySent]
    split
    · exact ht
    · split
      · exact ht
      · exact Turns.still (ht.note (e := .wire _ _ _) rfl) rfl id rfl
  | copyDone i =>
    have hdrop : Turns env t (dropCopy i t) := ht.still rfl id rfl
    simp only [runEvent, copyDone]
    simp only [Event.quiet] at hq
    split
    · exact ht
    next u hu =>
    rw [hu] at hq
    cases hk : u.kind with
    | destroy => simp [hk] at hq
    | message onSend =>
      cases onSend with
      | true => simp [hk] at hq
      | false => exact hdrop
    | _ => exact hdrop
  | tick ms => exact ht.tail (.tick ms t)
  | timewaitTimeout =>
    simp only [runEvent, timewaitTimeout]
    split
    · exact ht
    · split
      · exact ht
      · exact ht.still rfl id rfl

section

variable (h : Turns env s t)
include h

/-! ### Datagrams -/

theorem announceRead (data : List UInt8) : Turns env s (announceRead data t) := by
  unfold Udx.announceRead
  split
  · exact h.note rfl
  · exact h.note rfl

theorem chunkStage (c : Chunk) (rest : List Chunk) : Turns env s (chunkStage c rest t) := by
  have hset : Turns env s (setAcking rest (some c.wbuf)
      (t.withTx fun tx => { tx with bytesAcked := tx.bytesAcked + c.len })) := h.still rfl id rfl
  have hcount : Turns env s (ackBytes c rest t) := hset.countBytes c.wbuf c.len false
  have hclear : Turns env s (clearHighWatermark (ackBytes c rest t)) := hcount.still rfl id rfl
  unfold Udx.chunkStage
  dsimp only
  split
  · exact hclear.announce _ _
  · exact hcount

theorem ackTake (seq : SeqNo) (k : ℕ) (sack : Bool) : Turns env s (ackTake seq k sack t) := by
  unfold Udx.ackTake
  exact (h.check (a := .cirbufNull) rfl _).tail (.take seq k sack _)

theorem advanceRemoteAcked (p : RxPacket) : Turns env s (advanceRemoteAcked p t) := by
  unfold Udx.advanceRemoteAcked
  dsimp only
  split <;> exact h.still rfl id rfl

theorem bbrPacket (p : RxPacket) (delivered : ℕ) : Turns env s (bbrPacket env p delivered t) := by
  have hrate : ∀ lost, Turns env s (udxRateGen delivered lost t) := by
    intro lost
    obtain ⟨rs, limited, ts, rate, interval, sampled, hgen⟩ := udxRateGen_eq delivered lost t
    rw [hgen]
    exact h.still rfl id rfl
  unfold Udx.bbrPacket
  dsimp only
  split
  · exact (hrate _).bbrMain _
  · exact h

end

end Turns

/-! ### Moves -/

theorem PlainMove.turns {s t : Stream} (h : PlainMove env s t) : Turns env s t := by
  have hs : Turns env s s := .refl s
  cases h with
  | call c _ hc =>
    have henter : Turns env s (s.note (.call c s.toCore)) := hs.note rfl
    have hrun := henter.runCall_plain hc
    unfold Udx.call
    exact hrun.note rfl
  | enter => exact hs.note rfl
  | result => exact hs.note rfl
  | returned => exact hs.note rfl
  | teardown => exact hs.still rfl id rfl

theorem CallMove.turns {s t : Stream} (h : CallMove env s t) : Turns env s t := by
  have hs : Turns env s s := .refl s
  cases h with
  | plain hm => exact hm.turns
  | bind socket id addr =>
    have henter : Turns env s (s.note (.call (.connect socket id addr) s.toCore)) := hs.note rfl
    exact henter.connectBind socket id addr
  | keepalive => exact hs.connectKeepalive
  | message data onSend =>
    unfold messageSend
    exact (hs.sendCopy _ _ _).announce _ _
  | deferAck => exact hs.still rfl id rfl
  | ackOut => exact hs.ackOut
  | closeEnded => exact hs.closeEnded
  | dropTimewait => exact hs.still rfl id rfl
  | destroyStart => exact hs.destroyStart
  | close err => exact hs.closeStart err
  | cancelPkt => exact (hs.check (a := .packetHeld) rfl _).still rfl id rfl
  | cancelSeq => exact hs.still rfl id rfl
  | cancelChunk c rest =>
    have hset : Turns env s (setCancelling rest s) := hs.still rfl id rfl
    unfold Udx.cancelChunk announceCancel
    exact (hset.countBytes c.wbuf c.len true).announce _ _
  | cancelDone => exact hs.still rfl id rfl
  | cancelQueued b rest =>
    have hshift : Turns env s (shiftWriteQueue rest s) := hs.still rfl id rfl
    unfold Udx.cancelQueued announceCancel
    exact (hshift.countBytes b _ true).announce _ _
  | release _ hclosed => exact hs.tail (.release s hclosed)

theorem CallPath.turns {s t : Stream} (h : CallPath env s t) : Turns env s t := by
  induction h with
  | refl s => exact .refl s
  | tail _ hm ih => exact ih.trans hm.turns
  | @connecting s t u _ _ ih ih' =>
    have hopen : Turns env s (setConnecting true t) := ih.still rfl id rfl
    exact Turns.still (hopen.trans ih') rfl id rfl

theorem LoopMove.turns {s t : Stream} (h : LoopMove env s t) : Turns env s t := by
  have hs : Turns env s s := .refl s
  cases h with
  | quiet e _ he =>
    have hbegin : Turns env s (beginEvent e s) := Turns.still (hs.note (e := .event e s.toCore) rfl) rfl id rfl
    have hrun : Turns env (beginEvent e s) (runEvent env Hook.quiet e (beginEvent e s)) :=
      Turns.runEvent_quiet ((beginEvent_quiet e e s).trans he)
    exact Turns.still (hbegin.trans hrun) rfl id rfl
  | begin e => exact Turns.still (hs.note (e := .event e s.toCore) rfl) rfl id rfl
  | finish => exact hs.still rfl id rfl
  | asked => exact hs.still rfl id rfl
  | callback => exact hs.note rfl
  | giveUp =>
    unfold rtoGiveUp
    exact hs.clearTimer.rtoStart.closeUnlessDestroying _
  | copyGone => exact hs.still rfl id rfl
  | destroySent i =>
    have hdrop : Turns env s (dropCopy i s) := hs.still rfl id rfl
    exact hdrop.closeStart _
  | relayGone => exact hs.relayGone
  | relay seq =>
    have hnote : Turns env s (s.note (.reached (.relay seq) s.toCore)) := hs.note rfl
    exact hnote.still rfl id rfl
  | timewait type =>
    unfold processTimewait
    split
    · split
      · exact hs.sendCopy _ _ _
      · exact hs
    · exact hs

theorem RecvMove.turns {s t : Stream} (h : RecvMove s t) : Turns env s t := by
  have hs : Turns env s s := .refl s
  cases h with
  | packet => exact hs.still rfl id rfl
  | take p =>
    have hnote : Turns env s (noteAccept p.h.type p.h.seq p.data s) := hs.note rfl
    exact Turns.announceRead (hnote.still (u := takeNext _) rfl id rfl) p.data
  | hold p =>
    have hnote : Turns env s (noteAccept p.h.type p.h.seq p.data s) := hs.note rfl
    unfold holdPacket
    split
    · exact hs
    · exact hnote.still rfl id rfl
  | endBit => exact hs.still rfl id rfl
  | message => exact hs.note rfl
  | drainStart => exact hs.still rfl id rfl
  | drainTake b rest =>
    have htake : Turns env s (takeNext (setDraining rest s)) := hs.still rfl id rfl
    unfold Udx.drainTake
    dsimp only
    split
    · exact htake.announceRead b.data
    · exact htake

theorem AckMove.turns {s t : Stream} (h : AckMove env s t) : Turns env s t := by
  have hs : Turns env s s := .refl s
  have hloss : ∀ (ack : SeqNo) {x : Stream}, Turns env s x → Turns env s (detectLossRepairedByLossProbe ack x) := by
    intro ack x hx
    unfold detectLossRepairedByLossProbe
    refine hx.withCc ?_
    unfold Stream.tuned Stream.withCc
    dsimp only
    split_ifs <;> rfl
  have hleave : ∀ (ack : SeqNo) {x : Stream}, Turns env s x → Turns env s (leaveRecovery ack x) := by
    intro ack x hx
    unfold leaveRecovery
    refine Turns.withCc (hx.note rfl) ?_
    unfold Stream.tuned Stream.withCc
    dsimp only
    split_ifs <;> rfl
  cases h with
  | window p =>
    have hwin : Turns env s (updateSendWindow p.h (setProcessing true s)) := by
      unfold updateSendWindow stopZwp
      split_ifs <;> exact hs.still rfl id rfl
    unfold windowStage
    dsimp only
    split
    · have hchanged : Turns env s (remoteChanged (updateSendWindow p.h (setProcessing true s))) :=
        hwin.still rfl id rfl
      exact hchanged.announce _ _
    · exact hwin
  | ackInit p =>
    exact Turns.still (hleave _ (hloss p.h.ack hs)) rfl id rfl
  | ackAbsent p c =>
    have hnext : Turns env s (setCursor (some (c + 1)) s) := hs.still rfl id rfl
    exact (hnext.check (a := .cirbufNull) rfl _).still rfl id rfl
  | sackAbsent c => exact hs.check (a := .cirbufNull) rfl _
  | ackTake p c k =>
    have hnext : Turns env s (setCursor (some (c + 1)) s) := hs.still rfl id rfl
    exact hnext.ackTake c k false
  | sackTake c k => exact hs.ackTake c k true
  | sackDead c k x rest => exact (hs.ackTake c k true).chunkStage x rest
  | chunk c rest => exact hs.chunkStage c rest
  | complete b sack =>
    have hclear : Turns env s (clearAckDue s) := hs.still rfl id rfl
    exact hclear.announce _ _
  | ackDone k =>
    unfold Udx.ackDone ackEnd
    split
    · exact hs.still rfl id rfl
    · exact hs.still rfl id rfl
  | ackDrop => exact hs.still rfl id rfl
  | advance p => exact hs.advanceRemoteAcked p
  | advanceAll p =>
    have hset : Turns env s (setSacksLeft [] (advanceRemoteAcked p s)) :=
      (hs.advanceRemoteAcked p).still rfl id rfl
    exact hset.settleAcks p _
  | advanceEnded p => exact (hs.advanceRemoteAcked p).timerEnded
  | advanceDead p => exact hs.advanceRemoteAcked p
  | sackNext => exact hs.still rfl id rfl
  | settle p => exact hs.settleAcks p _
  | finishPacket p delivered =>
    unfold Udx.finishPacket
    have hsend := (hs.bbrPacket p delivered).sendPackets
    generalize sendPackets env (bbrPacket env p delivered s) = x at hsend ⊢
    exact hsend.still rfl id rfl

theorem Move.turns {s t : Stream} (h : Move env s t) : Turns env s t := by
  cases h with
  | loop h => exact h.turns
  | recv h => exact h.turns
  | ack h => exact h.turns

/-- Every run is a run of turns. -/
theorem Reach.turns {cfg : Config} {s : Stream} (h : Reach env cfg s) :
    Turns env (Udx.init env cfg) s :=
  h.preserves (I := Turns env (Udx.init env cfg)) (.refl _) (fun hm hs => hs.trans hm.turns)
    fun hp hs => hs.trans hp.turns

/-! ### What the turns change -/

/-- The round trip `ack_packet` takes from a packet. -/
def rttSample (p : Packet) (s : Stream) : ℕ :=
  if !p.retransmitted && clampRtt (s.io.now - p.timeSent) s == 0 then 1
  else clampRtt (s.io.now - p.timeSent) s

/-- The estimators after an acknowledgement. -/
def Packet.estimate (p : Packet) (s : Stream) : Cc :=
  if p.retransmitted then s.cc else updateRto (updateSrtt (rttSample p s) s.cc)

theorem udxRatePktDelivered_tuned (p : Packet) (s : Stream) : (udxRatePktDelivered p s).tuned = s.tuned := by
  unfold udxRatePktDelivered
  split_ifs <;> rfl

theorem rackUpdate_tuned (p : Packet) (rtt : ℕ) (next : SeqNo) (s : Stream) :
    (rackUpdate p rtt next s).tuned = s.tuned := by
  unfold rackUpdate
  split
  · unfold Stream.tuned Stream.withCc Stream.withCtl
    dsimp only
    split_ifs <;> rfl
  · rfl

theorem rackDetectReordering_tuned (retransmitted : Bool) (next : SeqNo) (s : Stream) :
    (rackDetectReordering retransmitted next s).tuned = s.tuned := by
  unfold rackDetectReordering Stream.tuned Stream.withCc
  dsimp only
  split_ifs <;> rfl

/-- The estimate is one of the estimators and the time alone. -/
theorem Packet.estimate_congr (p : Packet) {s t : Stream} (h : t.tuned = s.tuned) :
    (p.estimate t).srtt = (p.estimate s).srtt ∧ (p.estimate t).rttvar = (p.estimate s).rttvar ∧
      (p.estimate t).rto = (p.estimate s).rto := by
  have hsrtt : t.cc.srtt = s.cc.srtt := congrArg Tuned.srtt h
  have hvar : t.cc.rttvar = s.cc.rttvar := congrArg Tuned.rttvar h
  have hrto : t.cc.rto = s.cc.rto := congrArg Tuned.rto h
  have hnow : t.io.now = s.io.now := congrArg Tuned.now h
  have hrtt : rttSample p t = rttSample p s := by
    unfold rttSample clampRtt
    rw [hsrtt, hvar, hnow]
  unfold Packet.estimate
  split
  · exact ⟨hsrtt, hvar, hrto⟩
  · rw [hrtt]
    unfold updateRto updateSrtt
    rw [hsrtt, hvar]
    split_ifs <;> exact ⟨rfl, rfl, rfl⟩

/-- Only the estimators change in `ack_packet` up to its loop. -/
theorem rackAcked_tuned (p : Packet) (seq : SeqNo) (s : Stream) :
    (rackAcked p seq s).tuned = { s.tuned with
      srtt := (p.estimate s).srtt, rttvar := (p.estimate s).rttvar, rto := (p.estimate s).rto } := by
  unfold rackAcked
  dsimp only
  rw [rackDetectReordering_tuned, rackUpdate_tuned]
  unfold sampleRtt Packet.estimate
  split
  · rfl
  · unfold updateRtt updateRto updateSrtt rttSample Stream.tuned Stream.withCc
    dsimp only
    split_ifs <;> rfl

theorem takeAcked_tuned (seq : SeqNo) (k : ℕ) (sack : Bool) (s : Stream) :
    (takeAcked seq k sack s).tuned = { s.tuned with
      srtt := ((s.tx.pkts k).estimate s).srtt
      rttvar := ((s.tx.pkts k).estimate s).rttvar
      rto := ((s.tx.pkts k).estimate s).rto } := by
  unfold takeAcked
  dsimp only
  rw [rackAcked_tuned, udxRatePktDelivered_tuned]
  obtain ⟨hsrtt, hvar, hrto⟩ := (s.tx.pkts k).estimate_congr (udxRatePktDelivered_tuned (s.tx.pkts k)
    (setAckPkt k (setAcking (s.tx.pkts k).bufs none ((((s.note (.reached (.ackTake k) s.toCore)).withMtu
      (Mtu.acked (s.tx.pkts k).isMtuProbe))).withTx fun tx => tx.removeAcked seq k sack))))
  rw [hsrtt, hvar, hrto]
  rfl

theorem bbrRecover_tuned (s : Stream) : ∃ p u,
    (bbrRecover s).tuned = { s.tuned with prevCaState := p, usePacketConservation := u } := by
  unfold bbrRecover
  split_ifs <;> exact ⟨_, _, rfl⟩

/-- `bbr_set_cwnd` sets the window and the recovery state. -/
theorem bbrSetCwnd_tuned (env : Env) (rs : RateSample) (acked : ℕ) (s : Stream) :
    ∃ c p u, (bbrSetCwnd env rs acked s).tuned =
      { s.tuned with cwnd := c, prevCaState := p, usePacketConservation := u } := by
  have hcap : ∀ x : Stream, ∃ c, (bbrCapCwnd x).tuned = { x.tuned with cwnd := c } := by
    intro x
    unfold bbrCapCwnd
    split
    · exact ⟨_, rfl⟩
    · exact ⟨x.cc.cwnd, rfl⟩
  have hcheck : ∀ (a : Site) (q : Prop) [Decidable q] (x : Stream), (x.check a q).tuned = x.tuned := by
    intro a q _ x
    unfold Stream.tuned
    rw [Stream.check_cc, Stream.check_tm, Stream.check_io]
  have hstart : ∃ p u, (if acked = 0 then s else bbrRecover s).tuned =
      { s.tuned with prevCaState := p, usePacketConservation := u } := by
    split
    · exact ⟨s.cc.bbr.prevCaState, s.cc.bbr.usePacketConservation, rfl⟩
    · exact bbrRecover_tuned s
  obtain ⟨p, u, hstart⟩ := hstart
  unfold bbrSetCwnd
  dsimp only
  generalize (if acked = 0 then s else bbrRecover s) = x at hstart ⊢
  have hset : (x.withCc fun cc => { cc with cwnd := bbrTargetCwnd env rs acked s }).tuned =
      { x.tuned with cwnd := bbrTargetCwnd env rs acked s } := rfl
  generalize (x.withCc fun cc => { cc with cwnd := bbrTargetCwnd env rs acked s }) = y at hset ⊢
  obtain ⟨c, hc⟩ := hcap (y.check .bbrCwnd (y.cc.cwnd > 0))
  exact ⟨c, p, u, by rw [hc, hcheck, hset, hstart]⟩

/-- A refill that is due. -/
theorem updatePacingTime_due {s : Stream} (h : s.io.now > s.cc.tbLastRefillMs) :
    (updatePacingTime s).tuned = { s.tuned with
      tbAvailable := (s.io.now - s.cc.tbLastRefillMs) * s.cc.pacingBytesPerMs % 2 ^ 32
      tbLastRefillMs := s.io.now } := by
  have hcore := Stream.check_core .pacingRate (s.cc.pacingBytesPerMs > 0) s
  unfold updatePacingTime
  rw [if_pos h]
  dsimp only
  generalize s.check .pacingRate (s.cc.pacingBytesPerMs > 0) = x at hcore ⊢
  obtain ⟨core, log⟩ := x
  subst hcore
  rfl

theorem updatePacingTime_early {s : Stream} (h : ¬ s.io.now > s.cc.tbLastRefillMs) :
    updatePacingTime s = s := if_neg h

theorem releaseHandles_still (s : Stream) : (releaseHandles s).cc = s.cc ∧
    (releaseHandles s).io = s.io ∧ (releaseHandles s).st.closed = s.st.closed ∧
    (releaseHandles s).log = s.log := by
  unfold releaseHandles udxStreamReadStop
  split <;> exact ⟨rfl, rfl, rfl, rfl⟩

end Udx
