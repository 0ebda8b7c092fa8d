/-
# The moves of the send path

The send path cut into its steps: a slice goes into the packet in
construction, a packet goes out, one is found lost, a timer starts. Each move
says what it does to the queues and the timers, and leaves open what it does
to congestion control (`Aside`); there is one lemma for each function of
`Sender`, that what it does is a path of moves.

Key definitions: `Aside`, `Sent`, `NewPacket`, `Resent`, `SendMove`, `SendPath`.
Key theorems: `SendPath.sendPackets`, `SendPath.udxTlpTimeout`.
-/
import Udx.Frames

namespace Udx

open Serial

/-! ### Congestion control -/

/-- The asserts the moves leave open: those on congestion control and sizes. -/
def Site.loose : Site → Bool
  | .cwndPositive | .pacingRate | .bbrCwnd | .bbrBw | .bbrInitBw | .bbrAckEpoch | .headerFlag
  | .probeFamily | .packetBound | .packetSize | .armInflight | .armOutstanding | .armRto
  | .armClosed | .rackTransmits | .rackSize | .rackClosed => true
  | _ => false

def Entry.loose : Entry → Bool
  | .failed a => a.loose
  | .refill .. => true
  | _ => false

/-- The MTU search goes on or ends, and the sizes stay. -/
structure Mtu.Tunes (m m' : Mtu) : Prop where
  mtu : m'.mtu = m.mtu
  probeSize : m'.probeSize = m.probeSize
  max : m'.max = m.max
  state : m'.state = m.state ∨ m'.state = .searchComplete

theorem Mtu.Tunes.refl (m : Mtu) : m.Tunes m := ⟨rfl, rfl, rfl, .inl rfl⟩

theorem Mtu.Tunes.trans {m m' m'' : Mtu} (h : m.Tunes m') (h' : m'.Tunes m'') : m.Tunes m'' := by
  refine ⟨h'.mtu.trans h.mtu, h'.probeSize.trans h.probeSize, h'.max.trans h.max, ?_⟩
  rcases h'.state with hs | hs
  · rw [hs]
    exact h.state
  · exact .inr hs

/-- The state without congestion control and the MTU. -/
def Core.uncontrolled (c : Core) : Core :=
  { c with cc := {}, mtu := {}, io := { c.io with calls := 0 } }

/-- The recovery episode, and what was delivered. -/
def Cc.episode (cc : Cc) : SeqNo × CaState × SeqNo := (cc.delivered, cc.caState, cc.highSeq)

/-- Congestion control does its part, and nothing else changes. -/
structure Aside (s t : Stream) : Prop where
  core : t.uncontrolled = s.uncontrolled
  cc : t.cc.episode = s.cc.episode
  mtu : t.mtu = s.mtu
  log : ∃ l, t.log = l ++ s.log ∧ ∀ e ∈ l, e.loose = true

namespace Aside

variable {s t u : Stream}

theorem refl (s : Stream) : Aside s s := ⟨rfl, rfl, rfl, [], rfl, by simp⟩

theorem trans (h : Aside s t) (h' : Aside t u) : Aside s u := by
  obtain ⟨l, hl, hs⟩ := h.log
  obtain ⟨l', hl', hs'⟩ := h'.log
  refine ⟨h'.core.trans h.core, h'.cc.trans h.cc, h'.mtu.trans h.mtu, l' ++ l,
    by rw [hl', hl, List.append_assoc], fun e he => ?_⟩
  rcases List.mem_append.mp he with he | he
  · exact hs' e he
  · exact hs e he

section

variable (h : Aside s t)
include h

theorem st : t.st = s.st := (congrArg Core.st h.core :)
theorem rx : t.rx = s.rx := (congrArg Core.rx h.core :)
theorem tx : t.tx = s.tx := (congrArg Core.tx h.core :)
theorem win : t.win = s.win := (congrArg Core.win h.core :)
theorem tm : t.tm = s.tm := (congrArg Core.tm h.core :)
theorem peer : t.peer = s.peer := (congrArg Core.peer h.core :)
theorem handlers : t.handlers = s.handlers := (congrArg Core.handlers h.core :)
theorem ctl : t.ctl = s.ctl := (congrArg Core.ctl h.core :)
theorem now : t.io.now = s.io.now := (congrArg (fun c => c.io.now) h.core :)

end

variable (h : Aside s t)
include h

theorem note {e : Entry} (he : e.loose = true) : Aside s (t.note e) :=
  h.trans ⟨rfl, rfl, rfl, [e], rfl, by simpa using he⟩

theorem check {a : Site} (ha : a.loose = true) (p : Prop) [Decidable p] : Aside s (t.check a p) := by
  unfold Stream.check
  split
  · exact h
  · exact h.note ha

theorem withCc {f : Cc → Cc} (hf : (f t.cc).episode = t.cc.episode) :
    Aside s (t.withCc f) := h.trans ⟨rfl, hf, rfl, [], rfl, by simp⟩

theorem withBbr (f : Bbr → Bbr) : Aside s (t.withBbr f) := h.withCc rfl

theorem asked : Aside s t.asked := h.trans ⟨rfl, rfl, rfl, [], rfl, by simp⟩

theorem updatePacingTime : Aside s (updatePacingTime t) := by
  unfold Udx.updatePacingTime
  split
  · exact ((h.check rfl _).note rfl).withCc rfl
  · exact h

theorem streamMaySend (retransmit : Bool) : Aside s (streamMaySend retransmit t).1 := by
  unfold Udx.streamMaySend
  dsimp only
  split_ifs <;> exact (h.check rfl _).updatePacingTime

theorem udxRateCheckAppLimited : Aside s (udxRateCheckAppLimited t) := by
  unfold Udx.udxRateCheckAppLimited
  split
  · exact h.withCc rfl
  · exact h

theorem rateFlightStart : Aside s (rateFlightStart t) := by
  unfold Udx.rateFlightStart
  split
  · exact h.withCc rfl
  · exact h

/-! ### BBR -/

theorem bbrSaveCwnd : Aside s (bbrSaveCwnd t) := by
  unfold Udx.bbrSaveCwnd
  split <;> exact h.withBbr _

theorem bbrAdvanceCyclePhase : Aside s (bbrAdvanceCyclePhase t) := by
  unfold Udx.bbrAdvanceCyclePhase
  exact h.withBbr _

theorem bbrResetMode : Aside s (bbrResetMode t) := by
  unfold Udx.bbrResetMode
  split
  · exact h.withBbr _
  · unfold bbrResetProbeBwMode
    exact (h.withBbr _).bbrAdvanceCyclePhase

theorem bbrCheckProbeRttDone (now : ℕ) : Aside s (bbrCheckProbeRttDone now t) := by
  unfold Udx.bbrCheckProbeRttDone
  split
  · exact ((h.withBbr _).withCc rfl).bbrResetMode
  · exact h

theorem bbrUpdateBw (rs : RateSample) : Aside s (bbrUpdateBw rs t) := by
  have hround := h.withBbr fun bbr => { bbr with roundStart := false }
  unfold Udx.bbrUpdateBw bbrStartRound
  dsimp only
  split_ifs
  · exact hround
  · exact (hround.withBbr _).check rfl _
  · exact hround.check rfl _

theorem bbrCountAcked (expected acked : ℕ) : Aside s (bbrCountAcked expected acked t) := by
  unfold Udx.bbrCountAcked
  exact ((h.check rfl _).withBbr _).withBbr _

theorem bbrCheckFullBwReached (env : Env) (rs : RateSample) :
    Aside s (bbrCheckFullBwReached env rs t) := by
  unfold Udx.bbrCheckFullBwReached
  split_ifs
  · exact h
  · exact h.withBbr _
  · exact h.withBbr _

theorem bbrProbeRtt (now : ℕ) : Aside s (bbrProbeRtt now t) := by
  have hlimit := h.withCc (f := fun cc => { cc with
    appLimited := orOne (cc.delivered + BitVec.ofNat 32 t.tx.inflightQueue.length) }) rfl
  unfold Udx.bbrProbeRtt bbrProbeRttRound
  dsimp only
  split_ifs
  · exact hlimit.withBbr _
  · exact (hlimit.withBbr _).bbrCheckProbeRttDone _
  · exact hlimit.withBbr _
  · exact hlimit

theorem bbrUpdateMinRtt (rs : RateSample) : Aside s (bbrUpdateMinRtt rs t) := by
  have htake : Aside s (bbrTakeMinRtt rs (bbrFilterExpired t) t) := by
    unfold bbrTakeMinRtt
    split
    · exact h.withBbr _
    · exact h
  have henter : ∀ {x : Stream}, Aside s x → Aside s (bbrEnterProbeRtt (bbrFilterExpired t) x) := by
    intro x hx
    unfold bbrEnterProbeRtt
    split
    · exact ((hx.withBbr _).bbrSaveCwnd).withBbr _
    · exact hx
  have hin : ∀ {x : Stream}, Aside s x → Aside s (bbrInProbeRtt x) := by
    intro x hx
    unfold bbrInProbeRtt
    split
    · exact hx.bbrProbeRtt _
    · exact hx
  unfold Udx.bbrUpdateMinRtt
  exact (hin (henter htake)).withBbr _

variable (env : Env)

theorem bbrInitPacingRateFromRtt : Aside s (bbrInitPacingRateFromRtt env t) := by
  have hseen := (h.check (a := .bbrInitBw) rfl (t.cc.cwnd ≠ 0)).withBbr
  unfold Udx.bbrInitPacingRateFromRtt
  exact (hseen _).withCc rfl

theorem bbrSetPacingRate : Aside s (bbrSetPacingRate env t) := by
  have hsee : Aside s (bbrSeeRtt env t) := by
    unfold bbrSeeRtt
    split
    · exact h.bbrInitPacingRateFromRtt env
    · exact h
  unfold Udx.bbrSetPacingRate bbrRaisePacingRate
  split
  · exact hsee.withCc rfl
  · exact hsee

theorem bbrOnTransmitStart : Aside s (bbrOnTransmitStart env t) := by
  unfold Udx.bbrOnTransmitStart
  split
  · split
    · exact (h.withBbr _).bbrSetPacingRate env
    · exact (h.withBbr _).bbrCheckProbeRttDone _
    · exact h.withBbr _
  · exact h

theorem transmitStart (empty : Bool) : Aside s (transmitStart env empty t) := by
  unfold Udx.transmitStart
  split
  · exact h.bbrOnTransmitStart env
  · exact h

theorem bbrUpdateAckAggregation (rs : RateSample) : Aside s (bbrUpdateAckAggregation env rs t) := by
  unfold Udx.bbrUpdateAckAggregation
  dsimp only
  split_ifs
  · exact h
  · exact ((h.withBbr _).withBbr _).bbrCountAcked _ _
  · exact (h.withBbr _).bbrCountAcked _ _

theorem bbrUpdateCyclePhase (rs : RateSample) : Aside s (bbrUpdateCyclePhase env rs t) := by
  unfold Udx.bbrUpdateCyclePhase
  split
  · exact h.bbrAdvanceCyclePhase
  · exact h

theorem bbrCheckDrain : Aside s (bbrCheckDrain env t) := by
  have hdrain : Aside s (bbrStartDrain t) := by
    unfold bbrStartDrain
    split
    · exact h.withBbr _
    · exact h
  unfold Udx.bbrCheckDrain
  dsimp only
  split
  · unfold bbrResetProbeBwMode
    exact (hdrain.withBbr _).bbrAdvanceCyclePhase
  · exact hdrain

theorem bbrUpdateModel (rs : RateSample) : Aside s (bbrUpdateModel env rs t) := by
  have hbw := (h.bbrUpdateBw rs).bbrUpdateAckAggregation env rs
  have hphase := (hbw.bbrUpdateCyclePhase env rs).bbrCheckFullBwReached env rs
  have hmin := (hphase.bbrCheckDrain env).bbrUpdateMinRtt rs
  unfold Udx.bbrUpdateModel bbrUpdateGains
  exact hmin.withBbr _

theorem bbrSetCwnd (rs : RateSample) (acked : ℕ) : Aside s (bbrSetCwnd env rs acked t) := by
  have hrecover : Aside s (bbrRecover t) := by
    unfold bbrRecover
    split_ifs <;> exact h.withBbr _
  have hcap : ∀ {x : Stream}, Aside s x → Aside s (bbrCapCwnd x) := by
    intro x hx
    unfold bbrCapCwnd
    split
    · exact hx.withCc rfl
    · exact hx
  unfold Udx.bbrSetCwnd
  dsimp only
  split
  · exact hcap ((h.withCc rfl).check rfl _)
  · exact hcap ((hrecover.withCc rfl).check rfl _)

theorem bbrMain (rs : RateSample) : Aside s (bbrMain env rs t) := by
  unfold Udx.bbrMain
  exact (((h.bbrUpdateModel env rs).bbrSetPacingRate env).bbrSetCwnd env rs _).asked

end Aside

/-! ### A packet goes out -/

/-- What sending a packet leaves of it. -/
def Packet.key (p : Packet) : Packet :=
  { p with
    transmits := 0, retransmitted := false, timeSent := 0, firstSentTs := 0, deliveredTs := 0,
    delivered := 0, isAppLimited := false }

namespace Tx

/-- Packet `k`, now `p`, joins the packets in flight. -/
def launch (t : Tx) (k : ℕ) (p : Packet) : Tx :=
  ((t.setPkt k fun _ => p).unlinkIfLost k).pushInflight k

/-- libuv queues packet `k`. -/
def queueUv (t : Tx) (k : ℕ) (dest : Dest) : Tx :=
  { t.setPkt k fun p => { p with refCount := p.refCount + 1 } with
    uvq := t.uvq ++ [{ pkt := k, bufs := (t.pkts k).uvBufs k, dest := dest }] }

theorem setPkt_self (t : Tx) (k : ℕ) (f : Packet → Packet) : (t.setPkt k f).pkts k = f (t.pkts k) :=
  Function.update_self ..

theorem setPkt_of_ne {k j : ℕ} (h : j ≠ k) (t : Tx) (f : Packet → Packet) :
    (t.setPkt k f).pkts j = t.pkts j := Function.update_of_ne h ..

theorem setPkt_setPkt (t : Tx) (k : ℕ) (f g : Packet → Packet) :
    (t.setPkt k f).setPkt k g = t.setPkt k (g ∘ f) := by
  unfold setPkt
  simp

theorem setPkt_id (t : Tx) (k : ℕ) {f : Packet → Packet} (h : f (t.pkts k) = t.pkts k) :
    t.setPkt k f = t := by
  unfold setPkt
  rw [h, Function.update_eq_self]

theorem launch_eq (t : Tx) (k : ℕ) (p : Packet) : t.launch k p = { t with
    pkts := Function.update t.pkts k { p with lost := false }
    retransmitQueue := if p.lost then t.retransmitQueue.erase k else t.retransmitQueue
    inflightQueue := t.inflightQueue ++ [k]
    inflight := t.inflight + p.size } := by
  have hself := t.setPkt_self k fun _ => p
  unfold launch unlinkIfLost
  rw [hself]
  split
  · unfold unlinkLost pushInflight setPkt
    simp
  · next hl =>
    have hp : { p with lost := false } = p := by
      cases p
      simp at hl
      subst hl
      rfl
    rw [hp]
    unfold pushInflight
    rw [hself]
    rfl

theorem launch_self (t : Tx) (k : ℕ) (p : Packet) :
    (t.launch k p).pkts k = { p with lost := false } := by
  rw [launch_eq]
  exact Function.update_self ..

theorem queueUv_remoteAddr (t : Tx) (k : ℕ) (dest : Dest) :
    ((t.queueUv k dest).pkts k).remoteAddr = (t.pkts k).remoteAddr :=
  (congrArg Packet.remoteAddr (t.setPkt_self k fun p => { p with refCount := p.refCount + 1 }) :)

/-- What the packet was before does not matter. -/
theorem launch_setPkt (t : Tx) (k : ℕ) (f : Packet → Packet) (p : Packet) :
    (t.setPkt k f).launch k p = t.launch k p := by
  unfold launch
  rw [setPkt_setPkt]
  rfl

end Tx

/-- What a packet that is handed to libuv leaves in the log. -/
def Entry.handing (k : ℕ) (dest : Dest) (bytes : List UInt8) : Entry → Prop
  | .handed k' dest' => k' = .packet k ∧ dest' = dest
  | .wire k' dest' d => k' = .packet k ∧ dest' = dest ∧ d = bytes
  | .failed a => a.loose = true
  | .refill .. => True
  | _ => False

theorem Entry.handing_of_loose {e : Entry} (h : e.loose = true) (k : ℕ) (dest : Dest)
    (bytes : List UInt8) : e.handing k dest bytes := by
  cases e with
  | failed a => exact h
  | refill _ _ => trivial
  | _ => cases h

/-- The state without the queues of packets too. -/
def Core.besideTx (c : Core) : Core := { c.uncontrolled with tx := {} }

/-- Packet `k`, now `p`, is handed to libuv. -/
structure Sent (k : ℕ) (s t : Stream) : Prop where
  core : { t.toCore.besideTx with tm := {} } = { s.toCore.besideTx with tm := {} }
  cc : t.cc.episode = s.cc.episode
  mtu : t.mtu = s.mtu
  tm : ∃ r, (s.tm.refillPacingTimer.isSome = true → r.isSome = true) ∧
    t.tm = { s.tm with refillPacingTimer := r }
  tx : ∃ p, p.key = (s.tx.pkts k).key ∧ p.timeSent = s.io.now ∧
    (t.tx = s.tx.launch k p ∨
      t.tx = (s.tx.launch k p).queueUv k ⟨s.peer.socket, (s.tx.pkts k).remoteAddr⟩)
  log : ∃ l, t.log = l ++ s.log ∧ ∀ e ∈ l,
    e.handing k ⟨s.peer.socket, (s.tx.pkts k).remoteAddr⟩
      (t.tx.gather ((t.tx.pkts k).uvBufs k)) ∨
    e = .failed .packetRefCount ∧ (s.tx.pkts k).refCount ≠ 1

section

variable (env : Env) (k : ℕ) (s : Stream)

/-- What the `uv_udp_send` of a packet does. -/
theorem queuePacket_spec (send : UvSend) : (queuePacket env k send s).besideTx = s.besideTx ∧
    (queuePacket env k send s).tm = s.tm ∧ (queuePacket env k send s).cc = s.cc ∧
    (queuePacket env k send s).mtu = s.mtu ∧
    ((queuePacket env k send s).tx = s.tx ∨ (queuePacket env k send s).tx =
      { s.tx.setPkt k fun p => { p with refCount := p.refCount + 1 } with
        uvq := s.tx.uvq ++ [send] }) ∧
    ((queuePacket env k send s).log = s.log ∨ (s.tx.pkts k).refCount ≠ 1 ∧
      (queuePacket env k send s).log = .failed .packetRefCount :: s.log) := by
  generalize hx : s.withTx
    (fun tx => tx.setPkt k fun p => { p with refCount := p.refCount + 1 }) = x
  have hcount : (x.tx.pkts k).refCount = (s.tx.pkts k).refCount + 1 := by
    rw [← hx]
    exact congrArg Packet.refCount
      (s.tx.setPkt_self k fun p => { p with refCount := p.refCount + 1 })
  have hcheck : (x.check .packetRefCount ((x.tx.pkts k).refCount = 2)).toCore = x.toCore :=
    Stream.check_core ..
  have hlog : (x.check .packetRefCount ((x.tx.pkts k).refCount = 2)).log = s.log ∨
      (s.tx.pkts k).refCount ≠ 1 ∧ (x.check .packetRefCount ((x.tx.pkts k).refCount = 2)).log =
        .failed .packetRefCount :: s.log := by
    unfold Stream.check
    rw [hcount]
    split
    · exact .inl (hx ▸ rfl)
    · next h => exact .inr ⟨fun h1 => h (by rw [h1]), hx ▸ rfl⟩
  have hback : (s.tx.setPkt k fun p => { p with refCount := p.refCount + 1 }).derefPacket k =
      s.tx := by
    unfold Tx.derefPacket
    rw [Tx.setPkt_setPkt]
    exact Tx.setPkt_id _ _ rfl
  have hrest : ∀ f : Tx → Tx,
      ((x.check .packetRefCount ((x.tx.pkts k).refCount = 2)).withTx f).besideTx = s.besideTx ∧
      ((x.check .packetRefCount ((x.tx.pkts k).refCount = 2)).withTx f).tm = s.tm ∧
      ((x.check .packetRefCount ((x.tx.pkts k).refCount = 2)).withTx f).cc = s.cc ∧
      ((x.check .packetRefCount ((x.tx.pkts k).refCount = 2)).withTx f).mtu = s.mtu ∧
      ((x.check .packetRefCount ((x.tx.pkts k).refCount = 2)).withTx f).tx = f x.tx := by
    intro f
    unfold Stream.withTx
    dsimp only
    rw [hcheck, ← hx]
    exact ⟨rfl, rfl, rfl, rfl, rfl⟩
  unfold queuePacket
  dsimp only
  rw [hx]
  split
  · obtain ⟨h1, h2, h3, h4, h5⟩ := hrest fun tx => { tx with uvq := tx.uvq ++ [send] }
    exact ⟨h1, h2, h3, h4, .inr (h5.trans (hx ▸ rfl)), hlog⟩
  · obtain ⟨h1, h2, h3, h4, h5⟩ := hrest fun tx => tx.derefPacket k
    exact ⟨h1, h2, h3, h4, .inl (h5.trans (hx ▸ hback)), hlog⟩

/-- What the `uv_udp_try_send` of a packet does. -/
theorem handPacket_spec : (handPacket env k s).besideTx = s.besideTx ∧
    (handPacket env k s).tm = s.tm ∧ (handPacket env k s).cc = s.cc ∧
    (handPacket env k s).mtu = s.mtu ∧
    ((handPacket env k s).tx = s.tx ∨
      (handPacket env k s).tx = s.tx.queueUv k ⟨s.peer.socket, (s.tx.pkts k).remoteAddr⟩) ∧
    ∃ l, (handPacket env k s).log = l ++ s.log ∧ ∀ e ∈ l,
      e.handing k ⟨s.peer.socket, (s.tx.pkts k).remoteAddr⟩
        ((handPacket env k s).tx.gather (((handPacket env k s).tx.pkts k).uvBufs k)) ∨
      e = .failed .packetRefCount ∧ (s.tx.pkts k).refCount ≠ 1 := by
  unfold handPacket
  dsimp only
  split
  · refine ⟨rfl, rfl, rfl, rfl, .inl rfl, [_, _], rfl, fun e he => .inl ?_⟩
    rcases List.mem_cons.mp he with rfl | he
    · exact ⟨rfl, rfl, rfl⟩
    · obtain rfl := List.mem_singleton.mp he
      exact ⟨rfl, rfl⟩
  · have hqueue := queuePacket_spec env k
      (s.note (.handed (.packet k) ⟨s.peer.socket, (s.tx.pkts k).remoteAddr⟩))
      { pkt := k, bufs := (s.tx.pkts k).uvBufs k, dest := ⟨s.peer.socket, (s.tx.pkts k).remoteAddr⟩ }
    obtain ⟨h1, h2, h3, h4, h5, h6⟩ := hqueue
    refine ⟨h1, h2, h3, h4, h5, ?_⟩
    rcases h6 with h6 | ⟨hne, h6⟩
    · refine ⟨[_], h6, fun e he => .inl ?_⟩
      obtain rfl := List.mem_singleton.mp he
      exact ⟨rfl, rfl⟩
    · refine ⟨[_, _], h6, fun e he => ?_⟩
      rcases List.mem_cons.mp he with rfl | he
      · exact .inr ⟨rfl, hne⟩
      · obtain rfl := List.mem_singleton.mp he
        exact .inl ⟨rfl, rfl⟩
  · refine ⟨rfl, rfl, rfl, rfl, .inl rfl, [_], rfl, fun e he => .inl ?_⟩
    obtain rfl := List.mem_singleton.mp he
    exact ⟨rfl, rfl⟩

/-- `_send_packet` hands the packet over. -/
theorem _sendPacket_sent (isRetransmit : Bool) : Sent k s (_sendPacket env k isRetransmit s) := by
  have hflight := (Aside.refl s).udxRateCheckAppLimited.rateFlightStart
  have hspend : ∀ (n : ℕ) (x : Stream), { (spendTokens n x).toCore with tm := {}, cc := {} } =
        { x.toCore with tm := {}, cc := {} } ∧
      (spendTokens n x).cc.episode = x.cc.episode ∧
      (∃ r, (x.tm.refillPacingTimer.isSome = true → r.isSome = true) ∧
        (spendTokens n x).tm = { x.tm with refillPacingTimer := r }) ∧
      (spendTokens n x).log = x.log := by
    intro n x
    unfold spendTokens
    dsimp only
    split
    · exact ⟨rfl, rfl, ⟨_, fun _ => rfl, rfl⟩, rfl⟩
    · exact ⟨rfl, rfl, ⟨_, id, rfl⟩, rfl⟩
  unfold _sendPacket
  dsimp only
  generalize rateFlightStart (udxRateCheckAppLimited s) = x at hflight ⊢
  generalize hy : (x.withTx fun tx => tx.setPkt k (Packet.stampSend isRetransmit x.io.now x.cc)).withTx
    (fun tx => (tx.unlinkIfLost k).pushInflight k) = y
  have hytx : y.tx = s.tx.launch k (Packet.stampSend isRetransmit x.io.now x.cc (s.tx.pkts k)) := by
    rw [← hy, ← hflight.tx]
    rfl
  have hpkt : y.tx.pkts k = { Packet.stampSend isRetransmit x.io.now x.cc (s.tx.pkts k) with
      lost := false } := by
    rw [hytx, Tx.launch_self]
  have hycore : y.besideTx = x.besideTx ∧ y.tm = x.tm ∧ y.cc = x.cc ∧ y.mtu = x.mtu ∧
      y.log = x.log := by
    rw [← hy]
    exact ⟨rfl, rfl, rfl, rfl, rfl⟩
  obtain ⟨hc, htm, hcc, hmtu, hlog⟩ := hycore
  obtain ⟨hc', htm', hcc', hmtu', htx', l, hlog', hl⟩ := handPacket_spec env k y
  obtain ⟨hs1, hs2, ⟨r, hr, hs3⟩, hs4⟩ := hspend (y.tx.pkts k).size (handPacket env k y)
  have htms : (handPacket env k y).tm = s.tm := (htm'.trans htm).trans hflight.tm
  have htx : (spendTokens (y.tx.pkts k).size (handPacket env k y)).tx = (handPacket env k y).tx :=
    (congrArg Core.tx hs1 :)
  have hpeer : y.peer = s.peer := (congrArg Core.peer hc :).trans hflight.peer
  have hdest : (⟨y.peer.socket, (y.tx.pkts k).remoteAddr⟩ : Dest) =
      ⟨s.peer.socket, (s.tx.pkts k).remoteAddr⟩ := by
    rw [hpeer, hpkt]
    rfl
  have hcount : (y.tx.pkts k).refCount = (s.tx.pkts k).refCount := by
    rw [hpkt]
    rfl
  rw [hdest] at htx' hl
  rw [hcount] at hl
  refine ⟨?_, hs2.trans ((congrArg Cc.episode (hcc'.trans hcc)).trans hflight.cc), ?_,
    ⟨r, htms ▸ hr, by rw [hs3, htms]⟩,
    ⟨Packet.stampSend isRetransmit x.io.now x.cc (s.tx.pkts k), rfl, hflight.now, ?_⟩, ?_⟩
  · have h1 := congrArg (fun c => { Core.besideTx c with tm := {} }) hs1
    have h2 := congrArg (fun c => { c with tm := ({} : Timers) }) (hc'.trans hc)
    have h3 := congrArg (fun c => { c with tx := ({} : Tx), tm := ({} : Timers) }) hflight.core
    exact (h1.trans h2).trans h3
  · have h1 : (spendTokens (y.tx.pkts k).size (handPacket env k y)).mtu = x.mtu :=
      (congrArg Core.mtu hs1 :).trans (hmtu'.trans hmtu)
    rw [h1]
    exact hflight.mtu
  · rw [htx, ← hytx]
    exact htx'
  · obtain ⟨l', hl', hloose⟩ := hflight.log
    refine ⟨l ++ l', by rw [hs4, hlog', hlog, hl', List.append_assoc], fun e he => ?_⟩
    rw [htx]
    rcases List.mem_append.mp he with he | he
    · exact hl e he
    · exact .inl (Entry.handing_of_loose (hloose e he) ..)

end

/-! ### Timers of outstanding packets -/

/-- The timers of outstanding packets. -/
def Timer.covers : Timer → Bool
  | .rto | .rackReo | .tlp => true
  | _ => false

/-- A timer of the outstanding packets is pending, or starts. -/
def Timers.Arms (tm tm' : Timers) : Prop :=
  tm.pendingTimer.covers = true ∧ tm' = tm ∨
    ∃ x due ts, (x = .rto ∨ x = .tlp) ∧
      tm' = { tm with pendingTimer := x, timer := some (x, due), nextRtoTs := ts }

theorem Timers.Arms.tlp {tm tm' : Timers} (h : tm.Arms tm') (due : ℕ) :
    tm.Arms (tm'.start .tlp due) := by
  refine .inr ⟨.tlp, due, tm'.nextRtoTs, .inr rfl, ?_⟩
  rcases h with ⟨-, rfl⟩ | ⟨x, due', ts, -, rfl⟩ <;> rfl

theorem armStreamTimers_spec (tlp : Bool) (s : Stream) : ∃ x, Aside s x ∧
    ∃ tm, s.tm.Arms tm ∧ armStreamTimers tlp s = x.withTm fun _ => tm := by
  have hcheck : Aside s (checkArm s) := by
    unfold checkArm
    exact ((((Aside.refl s).check rfl _).check rfl _).check rfl _).check rfl _
  have htm := hcheck.tm
  unfold armStreamTimers
  dsimp only
  generalize checkArm s = x at hcheck htm ⊢
  have hrto : ∃ tm, s.tm.Arms tm ∧ armRto x = x.withTm fun _ => tm := by
    unfold armRto streamTimerStart
    split
    · exact ⟨_, .inr ⟨.rto, x.io.now + x.cc.rto, x.io.now + x.cc.rto, .inl rfl, rfl⟩,
        by rw [← htm]; rfl⟩
    · next hne =>
      refine ⟨x.tm, .inl ⟨?_, htm⟩, rfl⟩
      rw [htm] at hne
      cases hp : s.tm.pendingTimer <;> simp [hp] at hne <;> rfl
  obtain ⟨tm, harm, heq⟩ := hrto
  refine ⟨x, hcheck, ?_⟩
  split
  · rw [heq]
    unfold armTlp scheduleLossProbe streamTimerStart
    dsimp only
    split
    · split
      · exact ⟨tm, harm, rfl⟩
      · exact ⟨tm.start .tlp _, harm.tlp _, rfl⟩
    · exact ⟨tm, harm, rfl⟩
  · exact ⟨tm, harm, heq⟩

/-! ### Retransmissions and new packets -/

/-- Packet `k` goes out again. -/
structure Resent (k : ℕ) (s t : Stream) : Prop where
  core : { t.toCore.besideTx with tm := {} } = { s.toCore.besideTx with tm := {} }
  cc : t.cc.episode = s.cc.episode
  mtu : t.mtu = s.mtu
  tm : ∃ r, (s.tm.refillPacingTimer.isSome = true → r.isSome = true) ∧
    { s.tm with refillPacingTimer := r }.Arms t.tm
  tx : ∃ p rwnd, p.key = ((s.tx.pkts k).refresh rwnd s.rx.ack).key ∧ p.timeSent = s.io.now ∧
    (t.tx = s.tx.launch k p ∨
      t.tx = (s.tx.launch k p).queueUv k ⟨s.peer.socket, (s.tx.pkts k).remoteAddr⟩)
  log : ∃ l, t.log = l ++ s.log ∧ ∀ e ∈ l,
    e.handing k ⟨s.peer.socket, (s.tx.pkts k).remoteAddr⟩
      (t.tx.gather ((t.tx.pkts k).uvBufs k)) ∨
    e = .failed .packetRefCount ∧ (s.tx.pkts k).refCount ≠ 1

/-- The remote a packet is bound to, as `_send_packet` and the header use it. -/
def Packet.remote (p : Packet) : SeqNo × SockAddr × ℕ := (p.remoteId, p.remoteAddr, p.remoteAddrLen)

def Peer.remote (p : Peer) : SeqNo × SockAddr × ℕ := (p.remoteId, p.remoteAddr, p.remoteAddrLen)

/-- The packet in construction, `q`, as it goes out. -/
structure Packet.Numbers (q : Packet) (c : Core) (p : Packet) : Prop where
  seq : p.seq = c.tx.seq
  lost : p.lost = q.lost
  refCount : p.refCount = 1
  size : p.size = q.size
  bufs : p.bufs = q.bufs
  nwbufsCapacity : p.nwbufsCapacity = q.nwbufsCapacity
  streamOffset : p.streamOffset = q.streamOffset
  remote : p.remote = if q.remoteAddrLen = 0 then c.peer.remote else q.remote
  headerSeq : p.header.seq = c.tx.seq
  headerId : p.header.remoteId = p.remoteId
  headerAck : p.header.ack = c.rx.ack
  type : p.header.type = c.tx.pktHeaderFlag
  probe : p.isMtuProbe = q.isMtuProbe ∧ p.header.dataOffset = 0 ∨
    p.isMtuProbe = true ∧ hasFlag p.header.type UDX_HEADER_DATA = true ∧
      c.mtu.probeWanted = true ∧ c.peer.remoteChanging = false ∧ 0 ≤ p.padding c.mtu.probeSize ∧
      p.padding c.mtu.probeSize ≤ 255 ∧
      p.header.dataOffset = UInt8.ofNat (p.padding c.mtu.probeSize).toNat

/-- The MTU search counts a probe. -/
def Mtu.probeSent (m : Mtu) : Mtu := { m with probeCount := m.probeCount + 1, probeWanted := false }

/-- The packet in construction goes out, and another takes its place. -/
structure NewPacket (s t : Stream) : Prop where
  core : { t.toCore.besideTx with tm := {} } = { s.toCore.besideTx with tm := {} }
  cc : t.cc.episode = s.cc.episode
  tm : ∃ r tm, (s.tm.refillPacingTimer.isSome = true → r.isSome = true) ∧
    { s.tm with refillPacingTimer := r }.Arms tm ∧ t.tm = { tm with pendingPacketPrepare := false }
  tx : ∃ p z, (s.tx.pkts s.tx.pkt).Numbers s.toCore p ∧ p.timeSent = s.io.now ∧
    (t.mtu = s.mtu ∧ p.isMtuProbe = (s.tx.pkts s.tx.pkt).isMtuProbe ∨
      t.mtu = s.mtu.probeSent ∧ p.isMtuProbe = true ∧ s.mtu.probeWanted = true) ∧
    (z = (s.tx.occupy s.tx.seq s.tx.pkt).launch s.tx.pkt p ∨
      z = ((s.tx.occupy s.tx.seq s.tx.pkt).launch s.tx.pkt p).queueUv s.tx.pkt
        ⟨s.peer.socket, p.remoteAddr⟩) ∧
    t.tx = z.advanceSeq.resetNextPacket (udxMaxPayload s)
  log : ∃ l, t.log = l ++ s.log ∧ ∀ e ∈ l,
    e.handing s.tx.pkt ⟨s.peer.socket, (t.tx.pkts s.tx.pkt).remoteAddr⟩
      (t.tx.gather ((t.tx.pkts s.tx.pkt).uvBufs s.tx.pkt)) ∨
    (s.tx.pkts s.tx.pkt).remoteAddrLen = 0 ∧ ∃ pre, e = .reached (.bind s.tx.pkt) pre ∧ pre = s.toCore
  bound : (s.tx.pkts s.tx.pkt).remoteAddrLen = 0 → .reached (.bind s.tx.pkt) s.toCore ∈ t.log

theorem retransmitPacket_resent (env : Env) (k : ℕ) (s : Stream) :
    Resent k s (retransmitPacket env k s) := by
  unfold retransmitPacket
  dsimp only
  generalize hx : s.withTx
    (fun tx => tx.setPkt k (Packet.refresh (BitVec.ofNat 32 (getRecvRwnd env s)) s.rx.ack)) = x
  have hxpkt : x.tx.pkts k = (s.tx.pkts k).refresh (BitVec.ofNat 32 (getRecvRwnd env s)) s.rx.ack := by
    rw [← hx]
    exact s.tx.setPkt_self k _
  have hxtx : ∀ p, x.tx.launch k p = s.tx.launch k p := by
    intro p
    rw [← hx]
    exact s.tx.launch_setPkt k _ p
  have hxcore : x.besideTx = s.besideTx ∧ x.tm = s.tm ∧ x.peer = s.peer ∧ x.cc = s.cc ∧
      x.mtu = s.mtu ∧ x.log = s.log := by
    rw [← hx]
    exact ⟨rfl, rfl, rfl, rfl, rfl, rfl⟩
  obtain ⟨hc, htm, hpeer, hcc, hmtu, hlog⟩ := hxcore
  have hxnow : x.io.now = s.io.now := by
    rw [← hx]
    rfl
  have hsent := _sendPacket_sent env k x true
  have hstart := (Aside.refl (_sendPacket env k true x)).transmitStart env s.tx.inflightQueue.isEmpty
  obtain ⟨y, harm, tm, htm', heq⟩ := armStreamTimers_spec false
    (transmitStart env s.tx.inflightQueue.isEmpty (_sendPacket env k true x))
  have haside := hstart.trans harm
  rw [heq]
  have hdest : (⟨x.peer.socket, (x.tx.pkts k).remoteAddr⟩ : Dest) =
      ⟨s.peer.socket, (s.tx.pkts k).remoteAddr⟩ := by
    rw [hpeer, hxpkt]
    rfl
  obtain ⟨p, hp, htime, htx⟩ := hsent.tx
  obtain ⟨l, hl, hls⟩ := hsent.log
  obtain ⟨l', hl', hls'⟩ := haside.log
  rw [hxtx, hdest] at htx
  rw [hdest] at hls
  refine ⟨?_, ?_, ?_, ?_, ⟨p, BitVec.ofNat 32 (getRecvRwnd env s), hp.trans (by rw [hxpkt]), hxnow ▸ htime, ?_⟩,
    l' ++ l, ?_, fun e he => ?_⟩
  · have h1 := congrArg (fun c => { c with tx := ({} : Tx), tm := ({} : Timers) }) haside.core
    have h2 := congrArg (fun c => { c with tm := ({} : Timers) }) hc
    exact (h1.trans hsent.core).trans h2
  · exact haside.cc.trans (hsent.cc.trans (congrArg Cc.episode hcc))
  · exact haside.mtu.trans (hsent.mtu.trans hmtu)
  · obtain ⟨r, hr, hr'⟩ := hsent.tm
    rw [htm] at hr hr'
    exact ⟨r, hr, (hstart.tm.trans hr') ▸ htm'⟩
  · exact haside.tx.symm ▸ htx
  · exact hl'.trans (by rw [hl, hlog, List.append_assoc])
  · rw [show (y.withTm fun _ => tm).tx = (_sendPacket env k true x).tx from haside.tx]
    rcases List.mem_append.mp he with he | he
    · exact .inl (Entry.handing_of_loose (hls' e he) ..)
    · have hcount : (x.tx.pkts k).refCount = (s.tx.pkts k).refCount := by
        rw [hxpkt]
        rfl
      exact hcount ▸ hls e he

/-- A stream after what is beside the queues, with packet `k` now `p`. -/
def Stamped (k : ℕ) (s : Stream) (p : Packet) (t : Stream) : Prop :=
  ∃ x, Aside s x ∧ t = x.withTx fun tx => tx.setPkt k fun _ => p

namespace Stamped

variable {k : ℕ} {s t : Stream} {p : Packet}

theorem pkt (h : Stamped k s p t) : t.tx.pkts k = p := by
  obtain ⟨x, -, rfl⟩ := h
  exact x.tx.setPkt_self k fun _ => p

theorem check (h : Stamped k s p t) {a : Site} (ha : a.loose = true) (q : Prop) [Decidable q] :
    Stamped k s p (t.check a q) := by
  obtain ⟨x, hx, rfl⟩ := h
  refine ⟨x.check a q, hx.check ha q, ?_⟩
  unfold Stream.check
  split <;> rfl

theorem setPkt (h : Stamped k s p t) (f : Packet → Packet) :
    Stamped k s (f p) (t.withTx fun tx => tx.setPkt k f) := by
  obtain ⟨x, hx, rfl⟩ := h
  refine ⟨x, hx, ?_⟩
  show x.withTx (fun tx => (tx.setPkt k fun _ => p).setPkt k f) = _
  congr 1
  funext tx
  exact tx.setPkt_setPkt k _ _

end Stamped

/-- The stream with the log of what `bind_packet_remote` does to the packet in
construction. -/
def noteBound (s : Stream) : Stream :=
  if (s.tx.pkts s.tx.pkt).remoteAddrLen = 0 then s.note (.reached (.bind s.tx.pkt) s.toCore) else s

theorem noteBound_core (s : Stream) : (noteBound s).toCore = s.toCore := by
  unfold noteBound
  split <;> rfl

theorem stampNewPacket_spec (env : Env) (tlp : Bool) (s : Stream) : ∃ p,
    (s.tx.pkts s.tx.pkt).Numbers s.toCore p ∧
      Stamped s.tx.pkt (noteBound s) p (stampNewPacket env tlp s).1 ∧
      ((stampNewPacket env tlp s).2 = true → p.isMtuProbe = true ∧ s.mtu.probeWanted = true) ∧
      ((stampNewPacket env tlp s).2 = false → p.isMtuProbe = (s.tx.pkts s.tx.pkt).isMtuProbe) := by
  have hself : ∀ x : Stream, x.tx = s.tx → Stamped s.tx.pkt x (s.tx.pkts s.tx.pkt) x := by
    intro x hx
    refine ⟨x, .refl x, ?_⟩
    have hid := s.tx.setPkt_id s.tx.pkt (f := fun _ => s.tx.pkts s.tx.pkt) rfl
    unfold Stream.withTx
    rw [hx]
    dsimp only
    rw [hid, ← hx]
  have hbind : ∃ q, q.bufs = (s.tx.pkts s.tx.pkt).bufs ∧
      q.nwbufsCapacity = (s.tx.pkts s.tx.pkt).nwbufsCapacity ∧ q.size = (s.tx.pkts s.tx.pkt).size ∧
      q.lost = (s.tx.pkts s.tx.pkt).lost ∧ q.isMtuProbe = (s.tx.pkts s.tx.pkt).isMtuProbe ∧
      q.streamOffset = (s.tx.pkts s.tx.pkt).streamOffset ∧
      q.remote = (if (s.tx.pkts s.tx.pkt).remoteAddrLen = 0 then s.peer.remote
        else (s.tx.pkts s.tx.pkt).remote) ∧
      Stamped s.tx.pkt (noteBound s) q (bindIfUnbound s.tx.pkt s) := by
    unfold bindIfUnbound bindPacketRemote noteBound
    split
    · exact ⟨Packet.bindRemote s.peer (s.tx.pkts s.tx.pkt), rfl, rfl, rfl, rfl, rfl, rfl, rfl,
        ((hself (s.note (.reached (.bind s.tx.pkt) s.toCore)) rfl).check rfl _).setPkt _⟩
    · exact ⟨_, rfl, rfl, rfl, rfl, rfl, rfl, rfl, hself s rfl⟩
  obtain ⟨q, hbufs, hcap, hsize, hlost, hprobe, hoff, hremote, hq⟩ := hbind
  have hqtx : (bindIfUnbound s.tx.pkt s).tx.seq = s.tx.seq ∧
      (bindIfUnbound s.tx.pkt s).tx.pktHeaderFlag = s.tx.pktHeaderFlag ∧
      (bindIfUnbound s.tx.pkt s).tx.pkts s.tx.pkt = q ∧ (bindIfUnbound s.tx.pkt s).mtu = s.mtu ∧
      (bindIfUnbound s.tx.pkt s).peer = s.peer ∧ (bindIfUnbound s.tx.pkt s).rx = s.rx := by
    have hpkt := hq.pkt
    obtain ⟨x, hx, heq⟩ := hq
    have htx := hx.tx.trans (congrArg Core.tx (noteBound_core s))
    have hrx : x.rx = (noteBound s).rx := (congrArg Core.rx hx.core :)
    rw [heq] at hpkt ⊢
    exact ⟨(congrArg Tx.seq htx :), (congrArg Tx.pktHeaderFlag htx :), hpkt,
      hx.mtu.trans (congrArg Core.mtu (noteBound_core s)),
      hx.peer.trans (congrArg Core.peer (noteBound_core s)), hrx.trans (congrArg Core.rx (noteBound_core s))⟩
  have hnumber : ∃ p, (s.tx.pkts s.tx.pkt).Numbers s.toCore p ∧ p.isMtuProbe = q.isMtuProbe ∧
      p.header.dataOffset = 0 ∧
      Stamped s.tx.pkt (noteBound s) p (numberPacket env s.tx.pkt (bindIfUnbound s.tx.pkt s)) := by
    unfold numberPacket
    dsimp only
    generalize hheader : udxWriteHeader env (bindIfUnbound s.tx.pkt s).tx.pktHeaderFlag
      ((bindIfUnbound s.tx.pkt s).tx.pkts s.tx.pkt).remoteId (bindIfUnbound s.tx.pkt s) = header
    have hseq : header.seq = s.tx.seq := by
      rw [← hheader]
      exact hqtx.1
    have htype : header.type = s.tx.pktHeaderFlag := by
      rw [← hheader]
      exact hqtx.2.1
    have hid : header.remoteId = q.remoteId := by
      rw [← hheader]
      exact congrArg Packet.remoteId hqtx.2.2.1
    have hack : header.ack = s.rx.ack := by
      rw [← hheader]
      exact congrArg Rx.ack hqtx.2.2.2.2.2
    have hoffset : header.dataOffset = 0 := by rw [← hheader]; rfl
    exact ⟨Packet.number header q, ⟨hseq, hlost, rfl, hsize, hbufs, hcap, hoff, hremote, hseq, hid, hack, htype,
      .inl ⟨hprobe, hoffset⟩⟩, rfl, hoffset, hq.setPkt _⟩
  obtain ⟨p, hp, hpprobe, hpoff, hnum⟩ := hnumber
  have hnmtu : (numberPacket env s.tx.pkt (bindIfUnbound s.tx.pkt s)).mtu = s.mtu := hqtx.2.2.2.1
  have hnpeer : (numberPacket env s.tx.pkt (bindIfUnbound s.tx.pkt s)).peer = s.peer := hqtx.2.2.2.2.1
  have hplain := hpprobe.trans hprobe
  unfold stampNewPacket probeIfWanted
  dsimp only
  rw [hnmtu, hnpeer]
  split
  · next hwant =>
    simp only [Bool.and_eq_true, Bool.not_eq_true'] at hwant
    unfold mtuProbeifyPacket
    dsimp only
    rw [hnum.pkt]
    split_ifs with hdata hpad
    · exact ⟨p, hp, hnum, False.elim, fun _ => hplain⟩
    · exact ⟨p, hp, hnum.check rfl _, False.elim, fun _ => hplain⟩
    · simp only [Bool.or_eq_true, not_or, Bool.not_eq_true, Bool.not_eq_false'] at hdata
      rw [not_or, Int.not_lt, Int.not_lt] at hpad
      exact ⟨p.probeify s.mtu.probeSize, ⟨hp.seq, hp.lost, hp.refCount, hp.size, hp.bufs,
        hp.nwbufsCapacity, hp.streamOffset, hp.remote, hp.headerSeq, hp.headerId, hp.headerAck, hp.type,
        .inr ⟨rfl, hdata.1, hwant.1.1, hwant.2, hpad.1, hpad.2, rfl⟩⟩, (hnum.check rfl _).setPkt _,
        fun _ => ⟨rfl, hwant.1.1⟩, False.elim⟩
  · exact ⟨p, hp, hnum, fun h => absurd h Bool.false_ne_true, fun _ => hplain⟩

theorem Packet.Numbers.of_key {c : Core} {q p p' : Packet} (h : q.Numbers c p)
    (hk : p'.key = p.key) : q.Numbers c p' := by
  have hheader : p'.header = p.header := (congrArg Packet.header hk :)
  have hprobe : p'.isMtuProbe = p.isMtuProbe := (congrArg Packet.isMtuProbe hk :)
  have hremote : p'.remote = p.remote := (congrArg Packet.remote hk :)
  have hpad : ∀ n, p'.padding n = p.padding n := fun n => (congrArg (fun p => Packet.padding p n) hk :)
  refine ⟨(congrArg Packet.seq hk :).trans h.seq, (congrArg Packet.lost hk :).trans h.lost,
    (congrArg Packet.refCount hk :).trans h.refCount, (congrArg Packet.size hk :).trans h.size,
    (congrArg Packet.bufs hk :).trans h.bufs,
    (congrArg Packet.nwbufsCapacity hk :).trans h.nwbufsCapacity,
    (congrArg Packet.streamOffset hk :).trans h.streamOffset, hremote.trans h.remote, ?_, ?_, ?_, ?_, ?_⟩
  · rw [hheader]
    exact h.headerSeq
  · rw [hheader]
    exact h.headerId.trans (congrArg Prod.fst hremote).symm
  · rw [hheader]
    exact h.headerAck
  · rw [hheader]
    exact h.type
  · rw [hheader, hprobe, hpad]
    exact h.probe

namespace Tx

theorem gather_congr {t t' : Tx} {k : ℕ} (hk : t'.pkts k = t.pkts k) (hw : t'.wbufs = t.wbufs) :
    t'.gather ((t'.pkts k).uvBufs k) = t.gather ((t.pkts k).uvBufs k) := by
  have hbytes : ∀ b ∈ (t.pkts k).uvBufs k, t'.bytesOf b = t.bytesOf b := by
    intro b hb
    cases b with
    | header j =>
      obtain rfl : j = k := by
        unfold Packet.uvBufs at hb
        split at hb <;> simpa using hb
      exact congrArg (fun p => p.header.encode) hk
    | padding n => rfl
    | data c => exact congrArg (fun w => ((w c.wbuf).buf.drop c.base).take c.len) hw
  rw [hk]
  exact congrArg List.flatten (List.map_congr_left hbytes)

theorem resetNextPacket_pkts_of_ne {t : Tx} {j n : ℕ} (h : j ≠ t.pkt + 1) :
    (t.resetNextPacket n).pkts j = t.pkts j := Function.update_of_ne h ..

end Tx

theorem countNewPacket_aside (tlp mtuProbe : Bool) (seq : SeqNo) (s : Stream) :
    Aside (s.withMtu fun m => if mtuProbe then m.probeSent else m)
      (countNewPacket tlp mtuProbe seq s) := by
  unfold countNewPacket
  refine (Aside.refl _).withCc ?_
  split <;> rfl

/-- What two stretches of code log. -/
theorem log_trans {P : Entry → Prop} {s t u : Stream} (h : ∃ l, t.log = l ++ s.log ∧ ∀ e ∈ l, P e)
    (h' : ∃ l, u.log = l ++ t.log ∧ ∀ e ∈ l, P e) : ∃ l, u.log = l ++ s.log ∧ ∀ e ∈ l, P e := by
  obtain ⟨l, hl, hs⟩ := h
  obtain ⟨l', hl', hs'⟩ := h'
  refine ⟨l' ++ l, by rw [hl', hl, List.append_assoc], fun e he => ?_⟩
  rcases List.mem_append.mp he with he | he
  · exact hs' e he
  · exact hs e he

theorem _sendNewPacket_spec (env : Env) (tlp : Bool) (s : Stream) :
    NewPacket s (_sendNewPacket env tlp s) := by
  have hcheck := (Aside.refl s).check (a := .headerFlag) rfl
    (s.tx.pktHeaderFlag &&& ~~~UDX_HEADER_DATA_OR_END = 0)
  have hcheckcore := Stream.check_core .headerFlag (s.tx.pktHeaderFlag &&& ~~~UDX_HEADER_DATA_OR_END = 0) s
  unfold _sendNewPacket
  dsimp only
  generalize s.check .headerFlag (s.tx.pktHeaderFlag &&& ~~~UDX_HEADER_DATA_OR_END = 0) = s0 at hcheck hcheckcore ⊢
  obtain ⟨p, hp, ⟨x, hx, hstamp⟩, hprobed, hplain⟩ := stampNewPacket_spec env tlp s0
  generalize (stampNewPacket env tlp s0).1 = s1 at hstamp ⊢
  generalize (stampNewPacket env tlp s0).2 = mtuProbe at hprobed hplain ⊢
  rw [hcheckcore] at hp hstamp hprobed hplain ⊢
  have hnoted := (noteBound_core s0).trans hcheckcore
  have hxtx : x.tx = s.tx := hx.tx.trans (congrArg Core.tx hnoted)
  -- the slot of the packet
  generalize hy : s1.withTx (fun tx => tx.occupy (tx.pkts s.tx.pkt).seq s.tx.pkt) = y
  have hpseq : p.seq = s.tx.seq := hp.seq
  have hytx : y.tx = (s.tx.occupy s.tx.seq s.tx.pkt).setPkt s.tx.pkt fun _ => p := by
    rw [← hy, hstamp]
    show ((x.tx.setPkt s.tx.pkt fun _ => p).occupy
      ((x.tx.setPkt s.tx.pkt fun _ => p).pkts s.tx.pkt).seq s.tx.pkt) = _
    rw [Tx.setPkt_self, hpseq, hxtx]
    rfl
  have hypkt : y.tx.pkts s.tx.pkt = p := by
    rw [hytx]
    exact Tx.setPkt_self _ _ _
  have hycore : y.besideTx = s.besideTx ∧ y.tm = s.tm ∧ y.cc.episode = s.cc.episode ∧
      y.mtu = s.mtu ∧ y.peer = s.peer ∧ y.log = x.log := by
    have hcore := hx.core.trans (congrArg Core.uncontrolled hnoted)
    rw [← hy, hstamp]
    exact ⟨congrArg (fun c => { c with tx := ({} : Tx) }) hcore, (congrArg Core.tm hcore :),
      hx.cc.trans (congrArg (fun c => c.cc.episode) hnoted), hx.mtu.trans (congrArg Core.mtu hnoted),
      (congrArg Core.peer hcore :), rfl⟩
  obtain ⟨hc, htm, hcc, hmtu, hpeer, hlog⟩ := hycore
  -- what is done after it is handed over
  have hsent := _sendPacket_sent env s.tx.pkt y false
  generalize _sendPacket env s.tx.pkt false y = z at hsent ⊢
  have hstart := (Aside.refl (z.withTx Tx.advanceSeq)).transmitStart env s.tx.inflightQueue.isEmpty
  generalize transmitStart env s.tx.inflightQueue.isEmpty (z.withTx Tx.advanceSeq) = ts at hstart ⊢
  have hcount := countNewPacket_aside tlp mtuProbe (ts.tx.pkts s.tx.pkt).seq ts
  generalize countNewPacket tlp mtuProbe (ts.tx.pkts s.tx.pkt).seq ts = w at hcount ⊢
  obtain ⟨v, hv, tm, harm, heq⟩ := armStreamTimers_spec (!tlp) w
  rw [heq]
  have hend := (Aside.refl (v.withTm fun _ => tm)).check (a := .packetSize) rfl
    (((v.withTm fun _ => tm).tx.pkts s.tx.pkt).size > 0 ∧
      ((v.withTm fun _ => tm).tx.pkts s.tx.pkt).size < 1500)
  generalize (v.withTm fun _ => tm).check .packetSize
    (((v.withTm fun _ => tm).tx.pkts s.tx.pkt).size > 0 ∧
      ((v.withTm fun _ => tm).tx.pkts s.tx.pkt).size < 1500) = c at hend ⊢
  have hcw := hcount.trans hv
  have hctx : c.tx = z.tx.advanceSeq := (hend.tx.trans hcw.tx).trans hstart.tx
  have hcmtu : c.mtu = if mtuProbe then s.mtu.probeSent else s.mtu := by
    have hts : ts.mtu = s.mtu := hstart.mtu.trans (hsent.mtu.trans hmtu)
    rw [hend.mtu, ← hts]
    exact hcw.mtu
  have hzcore : { z.besideTx with tm := ({} : Timers) } = { s.besideTx with tm := ({} : Timers) } :=
    hsent.core.trans (congrArg (fun c => { c with tm := ({} : Timers) }) hc)
  have hcore : { c.besideTx with tm := ({} : Timers) } = { s.besideTx with tm := ({} : Timers) } := by
    have h1 := congrArg (fun c => { c with tx := ({} : Tx), tm := ({} : Timers) }) hend.core
    have h2 := congrArg (fun c => { c with tx := ({} : Tx), tm := ({} : Timers) }) hcw.core
    have h3 := congrArg (fun c => { c with tx := ({} : Tx), tm := ({} : Timers) }) hstart.core
    exact ((h1.trans h2).trans h3).trans hzcore
  have hpayload : udxMaxPayload c = udxMaxPayload s := by
    have hsize : c.mtu.mtu = s.mtu.mtu := by
      rw [hcmtu]
      split <;> rfl
    unfold udxMaxPayload
    rw [show c.peer = s.peer from (congrArg Core.peer hcore :), hsize]
  obtain ⟨q, hq, htime, hztx⟩ := hsent.tx
  obtain ⟨r, hr, hztm⟩ := hsent.tm
  have hsentlog := hsent.log
  rw [hypkt] at hq
  rw [hypkt, hpeer, hytx, Tx.launch_setPkt] at hztx
  rw [hypkt, hpeer] at hsentlog
  have hzpkt : z.tx.pkt = s.tx.pkt := by
    rcases hztx with h | h <;> rw [h, Tx.launch_eq] <;> rfl
  have htpkt : (c.tx.resetNextPacket (udxMaxPayload s)).pkts s.tx.pkt = z.tx.pkts s.tx.pkt := by
    rw [hctx]
    refine Tx.resetNextPacket_pkts_of_ne ?_
    show s.tx.pkt ≠ z.tx.pkt + 1
    omega
  have hgather : (c.tx.resetNextPacket (udxMaxPayload s)).gather
      (((c.tx.resetNextPacket (udxMaxPayload s)).pkts s.tx.pkt).uvBufs s.tx.pkt) =
      z.tx.gather ((z.tx.pkts s.tx.pkt).uvBufs s.tx.pkt) := by
    refine Tx.gather_congr htpkt ?_
    rw [hctx]
    rfl
  have hdest : (z.tx.pkts s.tx.pkt).remoteAddr = p.remoteAddr := by
    rw [show p.remoteAddr = q.remoteAddr from (congrArg Packet.remoteAddr hq :).symm]
    rcases hztx with h | h
    · rw [h, Tx.launch_self]
    · rw [h, Tx.queueUv_remoteAddr, Tx.launch_self]
  have hbind : ∃ l, (noteBound s0).log = l ++ s0.log ∧ ∀ e ∈ l, (s.tx.pkts s.tx.pkt).remoteAddrLen = 0 ∧
      ∃ pre, e = .reached (.bind s.tx.pkt) pre ∧ pre = s.toCore := by
    unfold noteBound
    rw [hcheckcore]
    split
    · next hlen => exact ⟨[.reached (.bind s.tx.pkt) s.toCore], rfl, by simp [hlen]⟩
    · exact ⟨[], rfl, by simp⟩
  have hbound : (s.tx.pkts s.tx.pkt).remoteAddrLen = 0 →
      .reached (.bind s.tx.pkt) s.toCore ∈ (noteBound s0).log := by
    intro hlen
    unfold noteBound
    rw [hcheckcore, if_pos hlen]
    exact List.mem_cons_self
  unfold resetNextPacket
  rw [hpayload]
  have hloose : ∀ {P : Entry → Prop} {x y : Stream}, Aside x y → (∀ e, e.loose = true → P e) →
      ∃ l, y.log = l ++ x.log ∧ ∀ e ∈ l, P e := by
    intro P x y hxy hP
    obtain ⟨l, hl, hs⟩ := hxy.log
    exact ⟨l, hl, fun e he => hP e (hs e he)⟩
  have hfinal : (Stream.withTx (fun tx => tx.resetNextPacket (udxMaxPayload s)) c).tx.pkts s.tx.pkt =
      z.tx.pkts s.tx.pkt := htpkt
  refine ⟨hcore, ?_, ⟨r, tm, htm ▸ hr, ?_, ?_⟩, ⟨q, z.tx, hp.of_key hq, ?_, ?_, ?_, ?_⟩, ?_, ?_⟩
  · exact ((hend.cc.trans hcw.cc).trans hstart.cc).trans (hsent.cc.trans hcc)
  · have hwtm : w.tm = { s.tm with refillPacingTimer := r } :=
      (hcount.tm.trans hstart.tm).trans (hztm.trans (by rw [htm]))
    exact hwtm ▸ harm
  · exact congrArg (fun tm => { tm with pendingPacketPrepare := false }) hend.tm
  · exact htime.trans (congrArg (fun c => c.io.now) hc)
  · rw [show q.isMtuProbe = p.isMtuProbe from (congrArg Packet.isMtuProbe hq :)]
    cases mtuProbe with
    | true => exact .inr ⟨hcmtu, hprobed rfl⟩
    | false => exact .inl ⟨hcmtu, hplain rfl⟩
  · rcases hztx with h | h
    · exact .inl h
    · refine .inr (h.trans ?_)
      rw [show p.remoteAddr = q.remoteAddr from (congrArg Packet.remoteAddr hq :).symm]
  · show c.tx.resetNextPacket (udxMaxPayload s) = _
    rw [hctx]
  · show ∃ l, c.log = l ++ s.log ∧ ∀ e ∈ l, e.handing s.tx.pkt ⟨s.peer.socket,
        ((c.tx.resetNextPacket (udxMaxPayload s)).pkts s.tx.pkt).remoteAddr⟩
        ((c.tx.resetNextPacket (udxMaxPayload s)).gather
          (((c.tx.resetNextPacket (udxMaxPayload s)).pkts s.tx.pkt).uvBufs s.tx.pkt)) ∨ _
    rw [hgather, htpkt, hdest]
    have hsend : ∃ l, z.log = l ++ y.log ∧ ∀ e ∈ l, e.handing s.tx.pkt ⟨s.peer.socket, p.remoteAddr⟩
        (z.tx.gather ((z.tx.pkts s.tx.pkt).uvBufs s.tx.pkt)) := by
      obtain ⟨l, hl, hs⟩ := hsentlog
      exact ⟨l, hl, fun e he => (hs e he).resolve_right fun h => h.2 hp.refCount⟩
    have hquiet : ∀ {x y : Stream} (u : Stream), Aside x y → x.log = u.log →
        ∃ l, y.log = l ++ u.log ∧ ∀ e ∈ l,
        e.handing s.tx.pkt ⟨s.peer.socket, p.remoteAddr⟩
          (z.tx.gather ((z.tx.pkts s.tx.pkt).uvBufs s.tx.pkt)) ∨
        (s.tx.pkts s.tx.pkt).remoteAddrLen = 0 ∧
          ∃ pre, e = .reached (.bind s.tx.pkt) pre ∧ pre = s.toCore := fun u hxy hxu =>
      hxu ▸ hloose hxy fun e he => .inl (Entry.handing_of_loose he ..)
    obtain ⟨lb, hlb, hbs⟩ := hbind
    obtain ⟨lz, hlz, hzs⟩ := hsend
    have hstamped := log_trans
      (log_trans (hquiet s hcheck rfl) ⟨lb, hlb, fun e he => .inr (hbs e he)⟩) (hquiet _ hx rfl)
    have hsent := log_trans hstamped ⟨lz, hlog ▸ hlz, fun e he => .inl (hzs e he)⟩
    have hstarted := log_trans hsent (hquiet z hstart rfl)
    exact log_trans (log_trans hstarted (hquiet ts hcw rfl)) (hquiet v hend rfl)
  · intro hlen
    obtain ⟨lx, hlx, -⟩ := hx.log
    obtain ⟨lz, hlz, -⟩ := hsentlog
    obtain ⟨ls, hls, -⟩ := hstart.log
    obtain ⟨lw, hlw, -⟩ := hcw.log
    obtain ⟨le, hle, -⟩ := hend.log
    have hmem := hbound hlen
    show _ ∈ c.log
    rw [hle]
    refine List.mem_append_right _ ?_
    show _ ∈ v.log
    rw [hlw]
    refine List.mem_append_right _ ?_
    show _ ∈ ts.log
    rw [hls]
    refine List.mem_append_right _ ?_
    show _ ∈ z.log
    rw [hlz, hlog, hlx]
    exact List.mem_append_right _ (List.mem_append_right _ hmem)

/-! ### Moves -/

/-- The packets that are out and not acknowledged. -/
def Tx.outstanding (t : Tx) : ℕ := t.inflightQueue.length + t.retransmitQueue.length

/-- The packet in construction is sent when it is full or ends the stream. -/
def Tx.complete (t : Tx) : Prop := t.pktCapacity = 0 ∨ hasFlag t.pktHeaderFlag UDX_HEADER_END = true

def setPrepare (s : Stream) : Stream := s.withTm fun tm => { tm with pendingPacketPrepare := true }

/-- The expiry that found `pre` has filled the packet in construction for its
tail-loss probe. -/
structure LossProbe (pre : Core) (s : Stream) : Prop where
  logged : .event .timer pre ∈ s.log
  due : ∃ due, pre.tm.timer = some (.tlp, due) ∧ due ≤ pre.io.now
  outstanding : pre.tx.remoteAcked ≠ pre.tx.seq
  permitted : pre.cc.tlpInFlight = false ∧ pre.cc.tlpPermitted = true
  queued : pre.tx.writeQueue ≠ []
  filled : ∃ u : Stream, u.tx = pre.tx ∧ s = fillPacket u.tx.writeQueue u

theorem startData_core (s : Stream) : (startData s).toCore = { s.toCore with
    tx := { s.tx.setPkt s.tx.pkt (Packet.bindRemote s.peer) with
      pktHeaderFlag := s.tx.pktHeaderFlag ||| UDX_HEADER_DATA } } := by
  unfold startData bindPacketRemote Stream.withTx
  simp only [Stream.check_core]
  rfl

/-- A slice changes the packet in construction and its buffer alone. -/
theorem fillSlice_core (b : ℕ) (s : Stream) : ∃ pkts wbufs capacity flag packetized,
    (fillSlice b s).toCore = { s.toCore with tx := { s.tx with
      pkts := pkts
      wbufs := wbufs
      pktCapacity := capacity
      pktHeaderFlag := flag
      bytesPacketized := packetized } } := by
  unfold fillSlice
  dsimp only
  split
  · exact ⟨_, _, _, _, _, (startData_core _).trans rfl⟩
  · exact ⟨_, _, _, _, _, rfl⟩

theorem fillSlice_writeQueue (b : ℕ) (s : Stream) : (fillSlice b s).tx.writeQueue = s.tx.writeQueue := by
  obtain ⟨f, w, c, h, n, hcore⟩ := fillSlice_core b s
  exact (congrArg (fun x => x.tx.writeQueue) hcore :)

/-- Fast recovery begins. -/
structure Recovers (s t : Stream) : Prop where
  core : t.uncontrolled = s.uncontrolled
  mtu : t.mtu = s.mtu
  log : t.log = s.log
  opened : s.cc.caState = .opened
  episode : t.cc.episode = (s.cc.delivered, .recovery, s.tx.seq)

/-- Steps of the send path. -/
inductive SendMove : Stream → Stream → Prop
  | aside {s t : Stream} (h : Aside s t) : SendMove s t
  | enter (s : Stream) : SendMove s (s.check .sendDead (s.st.dead = false))
  | tlpEnter (s : Stream) : SendMove s (s.check .tlpConnected (s.st.connected = true))
  | slice (b : ℕ) (rest : List ℕ) (s : Stream) (hq : s.tx.writeQueue = b :: rest)
    (hcap : s.tx.pktCapacity ≠ 0) : SendMove s (fillSlice b s)
  | shift (b : ℕ) (rest : List ℕ) (s : Stream) (hq : s.tx.writeQueue = b :: rest)
    (hfull : (s.tx.wbufs b).bytesAcked + (s.tx.wbufs b).bytesInflight = (s.tx.wbufs b).buf.length) :
    SendMove s (s.withTx fun tx => tx.shiftWrite b rest)
  | prepare (s : Stream) (hdata : hasFlag s.tx.pktHeaderFlag UDX_HEADER_DATA = true) :
    SendMove s (setPrepare s)
  | newPacket {s t : Stream} (h : NewPacket s t) (hc : s.tx.complete ∨
      s.tm.pendingPacketPrepare = true ∨ ∃ pre, LossProbe pre s) : SendMove s t
  | resend (k : ℕ) (rest : List ℕ) {s t : Stream} (hk : s.tx.retransmitQueue = k :: rest)
    (h : Resent k s t) : SendMove s t
  | reprobe (k : ℕ) {s t : Stream} (hk : tlpCandidate s.tx = some k)
    (h : Resent k (s.withTx fun tx => tx.unlinkInflight k) t)
    (hout : s.tx.remoteAcked ≠ s.tx.seq) (hcur : s.ctl.cursor = none) : SendMove s t
  | lost (k : ℕ) (s : Stream) (hk : k ∈ s.tx.inflightQueue) (href : (s.tx.pkts k).refCount ≠ 2) :
    SendMove s (unprobeIfProbe k (s.withTx fun tx => tx.markLost k))
  | rearm (fromNow : Bool) (s : Stream) : SendMove s (rearmRto fromNow s)
  | lossTimer (ms : ℕ) (s : Stream) (hout : s.tx.seq ≠ s.tx.remoteAcked) :
    SendMove s (streamTimerStart .tlp ms s)
  | reoTimer (ms : ℕ) (s : Stream) (hout : 0 < s.tx.outstanding) :
    SendMove s (streamTimerStart .rackReo ms s)
  | deadline (ts : ℕ) (s : Stream) : SendMove s (s.withTm fun tm => { tm with nextRtoTs := ts })
  | fullAck (s : Stream) (hall : s.tx.remoteAcked = s.tx.seq) : SendMove s (timerFullAck s)
  | recover {s t : Stream} (h : Recovers s t) (hcur : s.ctl.cursor = none)
    (hout : 0 < s.tx.outstanding) : SendMove s t

/-- What the send path does. -/
abbrev SendPath : Stream → Stream → Prop := Relation.ReflTransGen SendMove

namespace SendPath

variable {s t : Stream}

theorem refl (s : Stream) : SendPath s s := Relation.ReflTransGen.refl

variable (h : SendPath s t)
include h

theorem aside {u : Stream} (h' : Aside t u) : SendPath s u := h.tail (.aside h')

theorem fillPacket {queue : List ℕ} (hq : t.tx.writeQueue = queue) :
    SendPath s (fillPacket queue t) := by
  induction queue generalizing t with
  | nil => exact h
  | cons b rest ih =>
    unfold Udx.fillPacket
    dsimp only
    split_ifs with hcap hfull
    · exact h
    · exact ih ((h.tail (.slice b rest t hq hcap)).tail
        (.shift b rest _ ((fillSlice_writeQueue b t).trans hq) hfull)) rfl
    · exact h.tail (.slice b rest t hq hcap)

variable (env : Env)

theorem sendNewPacket : SendPath s (sendNewPacket env false t).1 := by
  unfold Udx.sendNewPacket
  dsimp only
  have hmay := h.aside ((Aside.refl t).streamMaySend false)
  generalize (streamMaySend false t).1 = u at hmay ⊢
  have hfill := hmay.fillPacket rfl
  unfold buildPacket
  dsimp only
  generalize Udx.fillPacket u.tx.writeQueue u = v at hfill ⊢
  split_ifs with hempty hno hsend hdata
  · exact h
  · exact hmay
  · refine hfill.tail (.newPacket (_sendNewPacket_spec env false v) (.inl ?_))
    simpa [Tx.complete] using hsend
  · exact hfill.tail (.prepare v hdata)
  · exact hfill

theorem newPacketLoop (n : ℕ) : SendPath s (newPacketLoop env n t) := by
  induction n generalizing t with
  | zero => exact h
  | succ n ih =>
    unfold Udx.newPacketLoop
    dsimp only
    split
    · exact ih (h.sendNewPacket env)
    · exact h.sendNewPacket env

theorem retransmitLoop (n : ℕ) : SendPath s (retransmitLoop env n t) := by
  induction n generalizing t with
  | zero => exact h
  | succ n ih =>
    unfold Udx.retransmitLoop
    split
    · exact h
    · next k rest hk =>
      have hmay := (Aside.refl t).streamMaySend true
      dsimp only
      split
      · refine ih ((h.aside hmay).tail (.resend k rest ?_ (retransmitPacket_resent env k _)))
        exact (congrArg Tx.retransmitQueue hmay.tx).trans hk
      · exact h.aside hmay

theorem sendPackets : SendPath s (sendPackets env t) := by
  unfold Udx.sendPackets
  exact newPacketLoop (retransmitLoop (h.tail (.enter t)) env _) env _

theorem pacingTimerTimeout : SendPath s (pacingTimerTimeout env t) := by
  unfold Udx.pacingTimerTimeout
  exact sendPackets (h.aside (Aside.refl t).updatePacingTime) env

theorem rearmRto (fromNow : Bool) : SendPath s (rearmRto fromNow t) := h.tail (.rearm fromNow t)

theorem scheduleLossProbe (advancingRto : Bool) : SendPath s (scheduleLossProbe advancingRto t).1 := by
  unfold Udx.scheduleLossProbe
  split
  · exact h
  · next hidle => exact h.tail (.lossTimer _ t fun hseq => hidle (.inl hseq))

theorem armRtoOrTlp : SendPath s (armRtoOrTlp t) := by
  unfold Udx.armRtoOrTlp
  dsimp only
  split
  · exact h.scheduleLossProbe _
  · exact rearmRto (h.scheduleLossProbe _) _

end SendPath

/-! ### Outstanding packets -/

/-- Sending again leaves as many packets out, or one more. -/
theorem Tx.launch_outstanding (t : Tx) (k : ℕ) (p : Packet) :
    t.outstanding ≤ (t.launch k p).outstanding := by
  have hlen := t.retransmitQueue.length_erase (a := k)
  rw [Tx.launch_eq]
  simp only [Tx.outstanding, List.length_append, List.length_singleton]
  split <;> (try split at hlen) <;> omega

theorem Resent.outstanding {k : ℕ} {s t : Stream} (h : Resent k s t) :
    s.tx.outstanding ≤ t.tx.outstanding := by
  obtain ⟨p, -, -, -, htx | htx⟩ := h.tx
  · exact htx ▸ s.tx.launch_outstanding k p
  · rw [htx]
    exact s.tx.launch_outstanding k p

/-- The packet that is probed with is in flight and libuv does not hold it. -/
theorem tlpCandidate_spec {t : Tx} {k : ℕ} (h : tlpCandidate t = some k) :
    t.outgoing (t.seq - 1) = some k ∧ (t.pkts k).lost = false ∧ (t.pkts k).refCount ≠ 2 := by
  unfold tlpCandidate at h
  obtain ⟨hout, hfilter⟩ := Option.filter_eq_some_iff.mp h
  simp only [Bool.not_or, Bool.and_eq_true, Bool.not_eq_true', beq_eq_false_iff_ne] at hfilter
  exact ⟨hout, hfilter⟩

theorem Tx.unlinkInflight_outstanding (t : Tx) (k : ℕ) :
    t.outstanding ≤ (t.unlinkInflight k).outstanding + 1 := by
  have hlen := t.inflightQueue.length_erase (a := k)
  simp only [Tx.outstanding, Tx.unlinkInflight]
  split at hlen <;> omega

/-- A packet that was not lost joins the others. -/
theorem Tx.launch_outstanding_of_kept (t : Tx) (k : ℕ) {p : Packet} (hp : p.lost = false) :
    (t.launch k p).outstanding = t.outstanding + 1 := by
  rw [Tx.launch_eq]
  simp only [Tx.outstanding, hp, List.length_append, List.length_singleton, Bool.false_eq_true,
    if_false]
  omega

theorem Tx.markLost_outstanding (t : Tx) {k : ℕ} (hk : k ∈ t.inflightQueue) :
    (t.markLost k).outstanding = t.outstanding := by
  have hpos := List.length_pos_of_mem hk
  simp only [Tx.outstanding, Tx.markLost, Tx.unlinkInflight, Tx.setPkt, List.length_append,
    List.length_singleton, List.length_erase_of_mem hk]
  omega

theorem unprobeIfProbe_outstanding (k : ℕ) (s : Stream) :
    (unprobeIfProbe k s).tx.outstanding = s.tx.outstanding := by
  unfold unprobeIfProbe
  split <;> rfl

theorem fillSlice_queues (b : ℕ) (s : Stream) :
    (fillSlice b s).tx.inflightQueue = s.tx.inflightQueue ∧
      (fillSlice b s).tx.retransmitQueue = s.tx.retransmitQueue := by
  obtain ⟨f, w, c, h, n, hcore⟩ := fillSlice_core b s
  exact ⟨(congrArg (fun x => x.tx.inflightQueue) hcore :), (congrArg (fun x => x.tx.retransmitQueue) hcore :)⟩

theorem timerFullAck_tx (s : Stream) : (timerFullAck s).tx = s.tx := by
  unfold timerFullAck startKeepalive
  dsimp only
  split_ifs <;> exact Stream.check_tx ..

theorem rearmRto_tx (fromNow : Bool) (s : Stream) : (rearmRto fromNow s).tx = s.tx := by
  unfold rearmRto rearmSavedRto
  split_ifs
  · rfl
  · rfl
  · exact Stream.check_tx ..

/-- No step of the send path takes a packet away. -/
theorem SendMove.outstanding {s t : Stream} (h : SendMove s t) :
    s.tx.outstanding ≤ t.tx.outstanding := by
  cases h with
  | aside h => exact Nat.le_of_eq (congrArg Tx.outstanding h.tx).symm
  | enter | tlpEnter => exact Nat.le_of_eq (congrArg Tx.outstanding (Stream.check_tx ..)).symm
  | slice b rest hq hcap =>
    have hqueues := fillSlice_queues b s
    exact Nat.le_of_eq (by rw [Tx.outstanding, Tx.outstanding, hqueues.1, hqueues.2])
  | newPacket h hc =>
    obtain ⟨p, z, -, -, -, hz, htx⟩ := h.tx
    have hlaunch := (s.tx.occupy s.tx.seq s.tx.pkt).launch_outstanding s.tx.pkt p
    rw [htx]
    rcases hz with rfl | rfl <;> exact hlaunch
  | resend k rest hk h => exact h.outstanding
  | reprobe k hk h =>
    obtain ⟨-, hlost, -⟩ := tlpCandidate_spec hk
    have hback := s.tx.unlinkInflight_outstanding k
    obtain ⟨p, rwnd, hp, -, htx⟩ := h.tx
    have hkept : p.lost = false := (congrArg Packet.lost hp :).trans hlost
    have hlaunch := (s.tx.unlinkInflight k).launch_outstanding_of_kept k hkept
    have hle := Nat.le_trans hback (Nat.le_of_eq hlaunch.symm)
    rcases htx with htx | htx <;> exact htx ▸ hle
  | lost k _ hk =>
    rw [unprobeIfProbe_outstanding]
    exact Nat.le_of_eq (s.tx.markLost_outstanding hk).symm
  | rearm fromNow => exact Nat.le_of_eq (congrArg Tx.outstanding (rearmRto_tx fromNow s)).symm
  | fullAck => exact Nat.le_of_eq (congrArg Tx.outstanding (timerFullAck_tx s)).symm
  | shift | prepare | lossTimer | reoTimer | deadline => exact Nat.le_refl _
  | recover h => exact Nat.le_of_eq (congrArg (fun c => c.tx.outstanding) h.core).symm

theorem SendPath.outstanding {s t : Stream} (h : SendPath s t) :
    s.tx.outstanding ≤ t.tx.outstanding := by
  induction h with
  | refl => exact Nat.le_refl _
  | tail _ hm ih => exact Nat.le_trans ih hm.outstanding

/-! ### Loss detection -/

theorem rackMarkLost_path {k : ℕ} {s : Stream} (hk : k ∈ s.tx.inflightQueue)
    (href : (s.tx.pkts k).refCount ≠ 2) : SendPath s (rackMarkLost k s) := by
  have hlost : Aside s (s.withCc fun cc => { cc with lost := cc.lost + 1 }) :=
    (Aside.refl s).withCc rfl
  have hcheck := hlost.check (a := .rackSize) rfl
    ((s.tx.pkts k).size > 0 ∧ (s.tx.pkts k).size < 1500)
  unfold rackMarkLost
  dsimp only
  refine (SendPath.aside (.refl s) hcheck).tail (.lost k _ ?_ ?_)
  · rw [hcheck.tx]
    exact hk
  · rw [hcheck.tx]
    exact href

/-- The inflight queue without a packet ends as it did after that packet. -/
theorem erase_suffix {k : ℕ} {queue pre rest : List ℕ} (h : queue = pre ++ k :: rest) :
    ∃ pre', queue.erase k = pre' ++ rest := by
  subst h
  rw [List.erase_append]
  split
  · exact ⟨pre.erase k ++ [k], by simp⟩
  · exact ⟨pre, by simp⟩

theorem rackMarkLost_queue (k : ℕ) (s : Stream) :
    (rackMarkLost k s).tx.inflightQueue = s.tx.inflightQueue.erase k := by
  have hcheck : ∀ (x : Stream) (p : Prop) [Decidable p], ((unprobeIfProbe k
      ((x.check .rackSize p).withTx fun tx => tx.markLost k))).tx.inflightQueue =
      x.tx.inflightQueue.erase k := by
    intro x p _
    unfold unprobeIfProbe Stream.check
    split <;> split <;> rfl
  exact hcheck _ _

/-- What the loop waits for is in flight, and what it found lost is still out. -/
theorem rackLoop_path (reoWnd : ℕ) {queue : List ℕ} (acc : RackAcc) {s t : Stream}
    (h : SendPath s t) (hq : ∃ pre, t.tx.inflightQueue = pre ++ queue)
    (hacc : acc.timeout > 0 ∨ 0 < acc.resending → 0 < t.tx.outstanding) :
    SendPath s (rackLoop reoWnd queue acc t).1 ∧ ((rackLoop reoWnd queue acc t).2.timeout > 0 ∨
        0 < (rackLoop reoWnd queue acc t).2.resending →
      0 < (rackLoop reoWnd queue acc t).1.tx.outstanding) := by
  induction queue generalizing t acc with
  | nil => exact ⟨h, hacc⟩
  | cons k rest ih =>
    have hcheck := (Aside.refl t).check (a := .rackTransmits) rfl ((t.tx.pkts k).transmits > 0)
    have hpath := h.aside hcheck
    have htx := hcheck.tx
    unfold rackLoop
    dsimp only
    generalize t.check .rackTransmits ((t.tx.pkts k).transmits > 0) = u at hcheck hpath htx ⊢
    obtain ⟨pre, hpre⟩ := hq
    rw [← htx] at hpre hacc ⊢
    have hmem : k ∈ u.tx.inflightQueue := by simp [hpre]
    have hout : 0 < u.tx.outstanding :=
      Nat.lt_of_lt_of_le (List.length_pos_of_mem hmem) (Nat.le_add_right _ _)
    have hskip : ∃ pre', u.tx.inflightQueue = pre' ++ rest := ⟨pre ++ [k], by simp [hpre]⟩
    split
    · exact ⟨hpath, hacc⟩
    · exact ih _ hpath hskip hacc
    · next hlost =>
      have href : (u.tx.pkts k).refCount ≠ 2 := by
        intro h2
        unfold rackVerdict at hlost
        rw [if_pos h2] at hlost
        split at hlost <;> cases hlost
      have hmark := rackMarkLost_path hmem href
      refine ih _ (hpath.trans hmark) ?_ fun _ => Nat.lt_of_lt_of_le hout hmark.outstanding
      rw [rackMarkLost_queue]
      exact erase_suffix hpre
    · exact ih _ hpath hskip fun _ => hout

namespace SendPath

variable {s t : Stream} (h : SendPath s t) (env : Env)
include h

theorem rackEnterRecovery (acc : RackAcc) (hcur : t.ctl.cursor = none)
    (hout : 0 < acc.resending → 0 < t.tx.outstanding) : SendPath s (rackEnterRecovery acc t) := by
  have hforgive : Aside t (rackForgiveProbes acc t) := by
    unfold rackForgiveProbes
    split
    · exact (Aside.refl _).withCc rfl
    · exact .refl _
  unfold Udx.rackEnterRecovery
  dsimp only
  split
  · next hlost =>
    have hbegin := h.aside hforgive
    rw [← hforgive.tx] at hout
    rw [← hforgive.ctl] at hcur
    generalize rackForgiveProbes acc t = u at hbegin hlost hout hcur ⊢
    have hsave := (Aside.refl (u.withCc fun cc => { cc with caState := .recovery })).bbrSaveCwnd
    refine hbegin.tail (.recover ⟨hsave.core, hsave.mtu, ?_, hlost.2, ?_⟩ hcur (hout (by omega)))
    · unfold bbrSaveCwnd
      split <;> rfl
    · unfold bbrSaveCwnd
      split <;> rfl
  · exact h.aside hforgive

theorem rackDetectLoss (hcur : t.ctl.cursor = none) : SendPath s (rackDetectLoss env t).1 ∧
    ((rackDetectLoss env t).2 > 0 → 0 < (rackDetectLoss env t).1.tx.outstanding) := by
  have hctl := ((Sends.refl t).rackLoop (rackUpdateReoWnd t) t.tx.inflightQueue {}).ctl
  obtain ⟨hloop, hwait⟩ := rackLoop_path (rackUpdateReoWnd t) {} h ⟨[], rfl⟩
    (fun h0 => absurd h0 (by simp))
  unfold Udx.rackDetectLoss
  dsimp only
  generalize rackLoop (rackUpdateReoWnd t) t.tx.inflightQueue {} t = r at hctl hloop hwait ⊢
  have hrecover : SendPath r.1 (Udx.rackEnterRecovery r.2 r.1) :=
    .rackEnterRecovery (.refl r.1) r.2 (by rw [hctl, hcur]) fun hpos => hwait (.inr hpos)
  have hsend := sendPackets hrecover env
  refine ⟨hloop.trans hsend, fun hpos => Nat.lt_of_lt_of_le (hwait (.inl ?_)) hsend.outstanding⟩
  omega

theorem rackDetectLossAndArmTimer (hcur : t.ctl.cursor = none) :
    SendPath s (rackDetectLossAndArmTimer env t).1 := by
  obtain ⟨hpath, hwait⟩ := h.rackDetectLoss env hcur
  unfold Udx.rackDetectLossAndArmTimer
  dsimp only
  split
  · next hpos =>
    have hcheck := (Aside.refl (Udx.rackDetectLoss env t).1).check (a := .rackClosed) rfl
      ((Udx.rackDetectLoss env t).1.st.closed = false)
    refine (hpath.aside hcheck).tail (.reoTimer _ _ ?_)
    rw [hcheck.tx]
    exact hwait hpos
  · exact hpath

theorem udxRackReoTimeout (hcur : t.ctl.cursor = none) : SendPath s (udxRackReoTimeout env t) := by
  unfold Udx.udxRackReoTimeout rackRearm
  split
  · exact rearmRto (h.rackDetectLoss env hcur).1 _
  · exact (h.rackDetectLoss env hcur).1

theorem timerDelivered : SendPath s (timerDelivered t) := by
  unfold Udx.timerDelivered
  split
  · next hall => exact h.tail (.fullAck t hall)
  · exact h.tail (.deadline _ t)

theorem settleAcks (p : RxPacket) (delivered : ℕ) (hcur : t.ctl.cursor = none) :
    SendPath s (settleAcks env p delivered t) := by
  have hafter : SendPath s (afterDelivery env p t).1 :=
    rackDetectLossAndArmTimer (h.timerDelivered) env (by
      rw [((Sends.refl t).timerDelivered).ctl]
      exact hcur)
  unfold Udx.settleAcks
  dsimp only
  split_ifs
  · exact armRtoOrTlp hafter
  · exact hafter
  · exact armRtoOrTlp h
  · exact h

/-- A tail-loss probe is due in `pre`. -/
theorem sendLossProbe {pre : Core} (htx : t.tx = pre.tx)
    (hlog : .event .timer pre ∈ t.log)
    (hdue : ∃ due, pre.tm.timer = some (.tlp, due) ∧ due ≤ pre.io.now)
    (hout : pre.tx.remoteAcked ≠ pre.tx.seq)
    (hperm : pre.cc.tlpInFlight = false ∧ pre.cc.tlpPermitted = true) (hcur : t.ctl.cursor = none) :
    SendPath s (sendLossProbe env t) := by
  -- where no packet is left to send, nothing was done
  have hunsent : (Udx.sendNewPacket env true t).2 = false → (Udx.sendNewPacket env true t).1 = t := by
    unfold Udx.sendNewPacket buildPacket
    simp only [Bool.not_true, Bool.and_false, Bool.false_eq_true, if_false, Bool.or_true,
      Bool.true_or, if_true]
    split
    · exact fun _ => rfl
    · exact fun hsent => nomatch hsent
  have hnew : SendPath s (Udx.sendNewPacket env true t).1 := by
    unfold Udx.sendNewPacket
    split
    · exact h
    next hqueue =>
    have hmay := (Aside.refl t).streamMaySend false
    have hfill := (h.aside hmay).fillPacket rfl
    have hgrow := ((Sends.refl t).streamMaySend false).fillPacket
      (Udx.streamMaySend false t).1.tx.writeQueue
    unfold buildPacket
    simp only [Bool.not_true, Bool.and_false, Bool.false_eq_true, if_false, Bool.or_true,
      Bool.true_or, if_true]
    refine hfill.tail (.newPacket (_sendNewPacket_spec env true _) (.inr (.inr ⟨pre, ?_⟩)))
    obtain ⟨l, hl, -⟩ := hgrow.log
    refine ⟨hl ▸ List.mem_append_right _ hlog, hdue, hout, hperm, ?_, _, ?_, rfl⟩
    · rw [← htx]
      exact fun hnil => hqueue (congrArg List.length hnil)
    · rw [hmay.tx]
      exact htx
  unfold Udx.sendLossProbe
  dsimp only
  generalize Udx.sendNewPacket env true t = r at hnew hunsent ⊢
  split
  · exact rearmRto hnew _
  · next hsent =>
    have hsame := hunsent (Bool.eq_false_iff.mpr hsent)
    split
    · exact rearmRto hnew _
    · next k hk =>
      have hagain : SendPath s (Udx.retransmitPacket env k (r.1.withTx fun tx => tx.unlinkInflight k)) :=
        hnew.tail (.reprobe k hk (retransmitPacket_resent env k _) (by rw [hsame, htx]; exact hout)
          (by rw [hsame]; exact hcur))
      unfold tlpFromExisting
      dsimp only
      generalize Udx.retransmitPacket env k (r.1.withTx fun tx => tx.unlinkInflight k) = x at hagain ⊢
      exact rearmRto (hagain.aside ((Aside.refl x).withCc rfl)) _

theorem udxTlpTimeout (pre : Core) (htx : t.tx = pre.tx)
    (hcc : t.cc = pre.cc) (hlog : .event .timer pre ∈ t.log)
    (hdue : ∃ due, pre.tm.timer = some (.tlp, due) ∧ due ≤ pre.io.now) (hcur : t.ctl.cursor = none) :
    SendPath s (udxTlpTimeout env t) := by
  have hcheck : SendPath s (t.check .tlpConnected (t.st.connected = true)) := h.tail (.tlpEnter t)
  have hcore := Stream.check_core .tlpConnected (t.st.connected = true) t
  have hmem : .event .timer pre ∈ (t.check .tlpConnected (t.st.connected = true)).log := by
    unfold Stream.check
    split
    · exact hlog
    · exact List.mem_cons_of_mem _ hlog
  have hctx := congrArg Core.tx hcore
  have hccc := congrArg Core.cc hcore
  have hcur' := (congrArg (fun c => c.ctl.cursor) hcore).trans hcur
  unfold Udx.udxTlpTimeout
  dsimp only
  generalize t.check .tlpConnected (t.st.connected = true) = u at hcheck hmem hctx hccc hcur' ⊢
  split_ifs with hall hno
  · exact hcheck
  · exact rearmRto hcheck _
  · rw [← hctx] at htx
    rw [← hccc] at hcc
    refine sendLossProbe hcheck env htx hmem hdue ?_ ?_ hcur'
    · rw [← htx]
      exact hall
    · rw [← hcc]
      simpa using hno

end SendPath

/-- What the send path leaves alone. -/
theorem SendMove.outside {s t : Stream} (h : SendMove s t) :
    t.st = s.st ∧ t.peer = s.peer ∧ ∃ l, t.log = l ++ s.log := by
  have hcheck : ∀ (a : Site) (p : Prop) [Decidable p] (x : Stream),
      (x.check a p).st = x.st ∧ (x.check a p).peer = x.peer ∧ ∃ l, (x.check a p).log = l ++ x.log := by
    intro a p _ x
    unfold Stream.check
    split
    · exact ⟨rfl, rfl, [], rfl⟩
    · exact ⟨rfl, rfl, [_], rfl⟩
  cases h with
  | aside h =>
    obtain ⟨l, hl, -⟩ := h.log
    exact ⟨(congrArg Core.st h.core :), (congrArg Core.peer h.core :), l, hl⟩
  | enter => exact hcheck ..
  | tlpEnter => exact hcheck ..
  | slice b =>
    obtain ⟨f, w, c, h, n, hcore⟩ := fillSlice_core b s
    refine ⟨(congrArg Core.st hcore :), (congrArg Core.peer hcore :), ?_⟩
    unfold fillSlice
    dsimp only
    split
    · unfold startData bindPacketRemote Stream.check
      dsimp only
      split
      · exact ⟨[_], rfl⟩
      · exact ⟨[_, _], rfl⟩
    · exact ⟨[], rfl⟩
  | recover h => exact ⟨(congrArg Core.st h.core :), (congrArg Core.peer h.core :), [], h.log⟩
  | newPacket h =>
    obtain ⟨l, hl, -⟩ := h.log
    exact ⟨(congrArg Core.st h.core :), (congrArg Core.peer h.core :), l, hl⟩
  | resend k rest hk h =>
    obtain ⟨l, hl, -⟩ := h.log
    exact ⟨(congrArg Core.st h.core :), (congrArg Core.peer h.core :), l, hl⟩
  | reprobe k hk h =>
    obtain ⟨l, hl, -⟩ := h.log
    exact ⟨(congrArg Core.st h.core :), (congrArg Core.peer h.core :), l, hl⟩
  | lost k =>
    unfold unprobeIfProbe
    split <;> exact ⟨rfl, rfl, [], rfl⟩
  | rearm fromNow =>
    unfold rearmRto rearmSavedRto
    split_ifs
    · exact ⟨rfl, rfl, [], rfl⟩
    · exact ⟨rfl, rfl, [], rfl⟩
    · exact hcheck ..
  | fullAck =>
    unfold timerFullAck startKeepalive
    dsimp only
    split_ifs <;> exact hcheck ..
  | shift | prepare | lossTimer | reoTimer | deadline => exact ⟨rfl, rfl, [], rfl⟩

end Udx
