/-
# Congestion control: windows, pacing, rate samples, RTT, BBR

The parts of `udx.c`, `udx_rate.c`, `win_filter.c` and `udx_bbr.c` that
decide how much may be sent. They read the queues but write only
`Core.cc` (and, in `udx__rate_pkt_sent`, the packet being sent). BBR's
doubles are answers of the environment (`Env.bbr`); `bw != 0` in
`bbr_update_bw` and `bbr_init_pacing_rate_from_rtt` is stated on the
dividend, the quotient of a nonzero `int32_t` by a positive `int64_t` being
nonzero.

Key definitions: `streamMaySend`, `udxRatePktDelivered`, `udxRateGen`,
`clampRtt`, `bbrMain`.
-/
import Udx.State

namespace Udx

open Serial

/-! ### Windows (udx.c) -/

/-- `uint32_t` addition. -/
def add32 (a b : ℕ) : ℕ := (a + b) % 2 ^ 32

def udxMaxPayload (s : Stream) : ℕ :=
  s.mtu.mtu -
    (if s.peer.remoteAddr.family = .inet then UDX_IPV4_HEADER_SIZE else UDX_IPV6_HEADER_SIZE)

def cwndInBytes (s : Stream) : ℕ := s.cc.cwnd * udxMaxPayload s % 2 ^ 32

def sendWindowInBytes (s : Stream) : ℕ := min (cwndInBytes s) s.win.sendRwnd

def sendRwndInPackets (s : Stream) : ℕ :=
  if s.win.sendRwnd = 0 then 0 else max (s.win.sendRwnd / udxMaxPayload s) 1

def sendWindowInPackets (s : Stream) : ℕ := min s.cc.cwnd (sendRwndInPackets s)

/-! ### Pacing (udx.c) -/

def updatePacingTime (s : Stream) : Stream :=
  if s.io.now > s.cc.tbLastRefillMs then
    let factor := s.io.now - s.cc.tbLastRefillMs
    let s := s.check .pacingRate (s.cc.pacingBytesPerMs > 0)
    let s := s.note (.refill factor s.cc.pacingBytesPerMs)
    s.withCc fun cc => { cc with
      tbAvailable := factor * cc.pacingBytesPerMs % 2 ^ 32
      tbLastRefillMs := s.io.now }
  else s

def streamMaySend (retransmit : Bool) (s : Stream) : Stream × Bool :=
  let s := s.check .cwndPositive (s.cc.cwnd > 0)
  let s := updatePacingTime s
  if s.cc.tbAvailable = 0 then (s, false)
  else if retransmit then (s, decide (s.tx.inflightQueue.length < s.cc.cwnd))
  else (s, decide (s.tx.inflightQueue.length < sendWindowInPackets s))

/-! ### Windowed minimum (win_filter.c) -/

namespace WinFilter

def get (wf : WinFilter) : ℕ := wf.e0.v

def reset (t v : ℕ) : WinFilter := ⟨⟨t, v⟩, ⟨t, v⟩, ⟨t, v⟩⟩

/-- `uint64_t` difference. -/
def sub64 (a b : ℕ) : ℕ := (a + 2 ^ 64 - b) % 2 ^ 64

def applyCommon (wf : WinFilter) (win t v : ℕ) : WinFilter :=
  let dt := sub64 t wf.e0.t % 2 ^ 32
  let new : WinFilterEntry := ⟨t, v⟩
  if dt > win then
    let wf : WinFilter := ⟨wf.e1, wf.e2, new⟩
    if sub64 t wf.e0.t > win then ⟨wf.e1, wf.e2, new⟩ else wf
  else if wf.e1.t = wf.e0.t ∧ dt > win / 4 then ⟨wf.e0, new, new⟩
  else if wf.e2.t = wf.e1.t ∧ dt > win / 2 then ⟨wf.e0, wf.e1, new⟩
  else wf

def applyMin (wf : WinFilter) (win t v : ℕ) : WinFilter :=
  if v ≤ wf.e0.v ∨ sub64 t wf.e2.t > win then reset t v
  else
    let new : WinFilterEntry := ⟨t, v⟩
    let wf :=
      if v ≤ wf.e1.v then ⟨wf.e0, new, new⟩
      else if v ≤ wf.e2.v then ⟨wf.e0, wf.e1, new⟩
      else wf
    applyCommon wf win t v

end WinFilter

def udxRttMin (s : Stream) : ℕ := s.cc.rttMin.get

/-! ### Rate samples (udx_rate.c) -/

def rackSentAfter (t1 : ℕ) (seq1 : SeqNo) (t2 : ℕ) (seq2 : SeqNo) : Bool :=
  decide (t1 > t2) || (decide (t1 = t2) && decide (seqCompare seq2 seq1 < 0))

/-- `udx__rate_pkt_sent`, on the stream. -/
def rateFlightStart (s : Stream) : Stream :=
  if s.tx.seq = s.tx.remoteAcked then
    s.withCc fun cc => { cc with firstSentTs := s.io.now, deliveredTs := s.io.now }
  else s

/-- `udx__rate_pkt_sent`, on the packet. -/
def Packet.ratePktSent (cc : Cc) (p : Packet) : Packet :=
  { p with
    firstSentTs := cc.firstSentTs
    deliveredTs := cc.deliveredTs
    delivered := cc.delivered
    isAppLimited := cc.appLimited != 0 }

/-- `stamp_ms_delta`: an `int64_t` difference, at least 0, as `uint32_t`. -/
def stampMsDelta (t1 t0 : ℕ) : ℕ := (t1 - t0) % 2 ^ 32

/-- The rate sample of a packet that was just acknowledged. -/
def RateSample.ofPacket (pkt : Packet) (rs : RateSample) : RateSample :=
  { rs with
    priorDelivered := pkt.delivered
    priorTimestamp := pkt.deliveredTs
    isAppLimited := pkt.isAppLimited
    seq := pkt.seq
    intervalMs := stampMsDelta pkt.timeSent pkt.firstSentTs }

def udxRatePktDelivered (pkt : Packet) (s : Stream) : Stream :=
  if pkt.deliveredTs = 0 then s
  else if s.ctl.rs.priorDelivered = 0 ∨
      rackSentAfter pkt.timeSent pkt.seq s.cc.firstSentTs s.ctl.rs.seq = true then
    (s.withCc fun cc => { cc with firstSentTs := pkt.timeSent }).withCtl fun ctl =>
      { ctl with rs := ctl.rs.ofPacket pkt }
  else s

/-- A signed 64-bit value as `uint64_t`. -/
def toU64 (x : ℤ) : ℕ := (x % 2 ^ 64).toNat

/-- The bubble of an application limit is acknowledged and gone. -/
def clearAppLimited (s : Stream) : Stream :=
  if s.cc.appLimited ≠ 0 ∧ seqCompare s.cc.delivered s.cc.appLimited > 0 then
    s.withCc fun cc => { cc with appLimited := 0 }
  else s

def markDelivered (delivered : ℕ) (s : Stream) : Stream :=
  if delivered ≠ 0 then s.withCc fun cc => { cc with deliveredTs := s.io.now } else s

/-- What `udx__rate_gen` makes of the rate sample. -/
def RateSample.gen (delivered : ℕ) (lost : ℤ) (s : Stream) : RateSample :=
  let rs : RateSample := { s.ctl.rs with ackedSacked := delivered, losses := lost }
  if rs.priorTimestamp = 0 then { rs with delivered := -1, intervalMs := -1 }
  else
    let sndMs := toU64 rs.intervalMs % 2 ^ 32
    let ackMs := stampMsDelta s.io.now rs.priorTimestamp
    let rs : RateSample := { rs with
      delivered := seqDiff s.cc.delivered rs.priorDelivered
      intervalMs := (max sndMs ackMs : ℕ) }
    if rs.intervalMs < (udxRttMin s : ℤ) then { rs with intervalMs := -1 } else rs

/-- A usable sample is kept if it is not limited by the application, or if it
is higher. -/
def keepRate (rs : RateSample) (s : Stream) : Stream :=
  if rs.intervalMs < 0 then s
  else if !rs.isAppLimited ||
      decide (toU64 (rs.delivered * s.cc.rateIntervalMs) ≥
        toU64 (s.cc.rateDelivered * rs.intervalMs)) then
    s.withCc fun cc => { cc with
      rateDelivered := toU64 rs.delivered % 2 ^ 32
      rateIntervalMs := toU64 rs.intervalMs % 2 ^ 32
      rateSampleIsAppLimited := rs.isAppLimited }
  else s

def udxRateGen (delivered : ℕ) (lost : ℤ) (s : Stream) : Stream :=
  let s := markDelivered delivered (clearAppLimited s)
  let rs := RateSample.gen delivered lost s
  keepRate rs (s.withCtl fun ctl => { ctl with rs := rs })

/-- What a rate sample changes. -/
theorem udxRateGen_eq (delivered : ℕ) (lost : ℤ) (s : Stream) : ∃ rs limited ts rate interval sampled,
    udxRateGen delivered lost s = (s.withCtl fun ctl => { ctl with rs := rs }).withCc fun cc => { cc with
      appLimited := limited
      deliveredTs := ts
      rateDelivered := rate
      rateIntervalMs := interval
      rateSampleIsAppLimited := sampled } := by
  have hclear : ∃ limited, clearAppLimited s = s.withCc fun cc => { cc with appLimited := limited } := by
    unfold clearAppLimited
    split
    · exact ⟨0, rfl⟩
    · exact ⟨s.cc.appLimited, rfl⟩
  have hmark : ∀ x : Stream, ∃ ts, markDelivered delivered x =
      x.withCc fun cc => { cc with deliveredTs := ts } := by
    intro x
    unfold markDelivered
    split
    · exact ⟨x.io.now, rfl⟩
    · exact ⟨x.cc.deliveredTs, rfl⟩
  have hkeep : ∀ (rs : RateSample) (x : Stream), ∃ rate interval sampled, keepRate rs x =
      x.withCc fun cc => { cc with
        rateDelivered := rate, rateIntervalMs := interval, rateSampleIsAppLimited := sampled } := by
    intro rs x
    unfold keepRate
    split_ifs
    · exact ⟨x.cc.rateDelivered, x.cc.rateIntervalMs, x.cc.rateSampleIsAppLimited, rfl⟩
    · exact ⟨_, _, _, rfl⟩
    · exact ⟨x.cc.rateDelivered, x.cc.rateIntervalMs, x.cc.rateSampleIsAppLimited, rfl⟩
  obtain ⟨limited, hclear⟩ := hclear
  obtain ⟨ts, hmark⟩ := hmark (clearAppLimited s)
  unfold udxRateGen
  dsimp only
  generalize RateSample.gen delivered lost (markDelivered delivered (clearAppLimited s)) = rs
  obtain ⟨rate, interval, sampled, hkeep⟩ := hkeep rs
    ((markDelivered delivered (clearAppLimited s)).withCtl fun ctl => { ctl with rs := rs })
  rw [hkeep, hmark, hclear]
  exact ⟨rs, limited, ts, rate, interval, sampled, rfl⟩

/-- `x ?: 1`. -/
def orOne (x : SeqNo) : SeqNo := if x = 0 then 1 else x

def udxRateCheckAppLimited (s : Stream) : Stream :=
  if s.tx.writesQueuedBytes < udxMaxPayload s ∧ s.tx.inflightQueue.length < s.cc.cwnd ∧
      s.tx.retransmitQueue.length = 0 then
    s.withCc fun cc => { cc with
      appLimited := orOne (cc.delivered + BitVec.ofNat 32 s.tx.inflightQueue.length) }
  else s

/-! ### Round trips and reordering (udx.c) -/

def clampRtt (rtt : ℕ) (s : Stream) : ℕ :=
  if s.cc.srtt = 0 then min (rtt % 2 ^ 32) UDX_RTT_MAX_MS
  else
    let outlierThreshold := add32 s.cc.srtt (5 * s.cc.rttvar)
    if rtt > outlierThreshold ∧ rtt > 5000 then min outlierThreshold UDX_RTT_MAX_MS
    else rtt % 2 ^ 32

def rackUpdateReoWnd (s : Stream) : ℕ :=
  if !s.cc.reorderingSeen && (s.cc.caState == .recovery || s.cc.caState == .loss) then 0
  else if !s.cc.reorderingSeen && decide (s.tx.sacks ≥ 3) then 0
  else
    let r := udxRttMin s / 4
    if r < s.cc.srtt then r else s.cc.srtt

/-- The first round trip sample, or one more for the estimator. -/
def updateSrtt (rtt : ℕ) (cc : Cc) : Cc :=
  if cc.srtt = 0 then { cc with srtt := rtt, rttvar := rtt / 2 }
  else
    let delta := if rtt < cc.srtt then cc.srtt - rtt else rtt - cc.srtt
    { cc with
      rttvar := add32 (3 * cc.rttvar) delta / 4
      srtt := add32 (7 * cc.srtt) rtt / 8 }

def updateRto (cc : Cc) : Cc :=
  { cc with rto := min (max (add32 cc.srtt (4 * cc.rttvar)) 1000) UDX_RTO_MAX_MS }

def updateRtt (rtt : ℕ) (s : Stream) : Stream :=
  s.withCc fun cc => updateRto { updateSrtt rtt cc with tlpPermitted := true }

/-! ### BBR (udx_bbr.c) -/

section Bbr

variable (env : Env)

def bbrCwndMinTarget : ℕ := 4
def bbrFullBwCount : ℕ := 3
def bbrExtraAckedWinRtts : ℕ := 5
def UDX_BBR_CYCLE_LEN : ℕ := 8
def UDX_BBR_MIN_RTT_INTERVAL_MS : ℕ := 10000
def UDX_BBR_MIN_PROBE_RTT_MODE_MS : ℕ := 200

def bbrExtraAcked (s : Stream) : ℕ := max s.cc.bbr.extraAcked.1 s.cc.bbr.extraAcked.2

def bbrInitPacingRateFromRtt (s : Stream) : Stream :=
  let s := s.check .bbrInitBw (s.cc.cwnd ≠ 0)
  let s := s.withBbr fun bbr => { bbr with hasSeenRtt := bbr.hasSeenRtt || s.cc.srtt != 0 }
  s.withCc fun cc => { cc with pacingBytesPerMs := max (env.bbr .initRate s.io.calls) 1 % 2 ^ 32 }

/-- The first round trip sample sets the pacing rate anew. -/
def bbrSeeRtt (s : Stream) : Stream :=
  if !s.cc.bbr.hasSeenRtt && s.cc.srtt != 0 then bbrInitPacingRateFromRtt env s else s

/-- The pacing rate is raised, or follows the bandwidth once that is known. -/
def bbrRaisePacingRate (rateBpms : ℕ) (s : Stream) : Stream :=
  if s.cc.bbr.fullBwReached || decide (rateBpms > s.cc.pacingBytesPerMs) then
    s.withCc fun cc => { cc with pacingBytesPerMs := rateBpms % 2 ^ 32 }
  else s

def bbrSetPacingRate (s : Stream) : Stream :=
  bbrRaisePacingRate (max (env.bbr .rate s.io.calls) 1) (bbrSeeRtt env s)

def bbrSaveCwnd (s : Stream) : Stream :=
  if s.cc.bbr.prevCaState = .opened ∧ s.cc.bbr.state ≠ .probeRtt then
    s.withBbr fun bbr => { bbr with priorCwnd := s.cc.cwnd }
  else s.withBbr fun bbr => { bbr with priorCwnd := max s.cc.bbr.priorCwnd s.cc.cwnd }

def bbrAdvanceCyclePhase (s : Stream) : Stream :=
  s.withBbr fun bbr => { bbr with
    cycleIndex := (bbr.cycleIndex + 1) % UDX_BBR_CYCLE_LEN
    cycleTimestamp := s.cc.deliveredTs }

def bbrResetStartupMode (s : Stream) : Stream := s.withBbr fun bbr => { bbr with state := .startup }

def bbrResetProbeBwMode (s : Stream) : Stream :=
  bbrAdvanceCyclePhase (s.withBbr fun bbr => { bbr with state := .probeBw, cycleIndex := 3 })

def bbrResetMode (s : Stream) : Stream :=
  if !s.cc.bbr.fullBwReached then bbrResetStartupMode s else bbrResetProbeBwMode s

/-- `time_diff`: `a - b` as `int64_t`. -/
def timeDiff (a b : ℕ) : ℤ := ((a : ℤ) - b).bmod (2 ^ 64)

def bbrCheckProbeRttDone (nowMs : ℕ) (s : Stream) : Stream :=
  if s.cc.bbr.probeRttDoneTime ≠ 0 ∧ timeDiff nowMs s.cc.bbr.probeRttDoneTime > 0 then
    bbrResetMode ((s.withBbr fun bbr => { bbr with minRttStamp := nowMs }).withCc fun cc =>
      { cc with cwnd := max cc.cwnd cc.bbr.priorCwnd })
  else s

/-- The flight starts after an idle time. -/
def bbrIdleRestart (s : Stream) : Stream :=
  s.withBbr fun bbr => { bbr with
    idleRestart := true, ackEpochStart := s.io.now, ackEpochAcked := 0 }

def bbrOnTransmitStart (s : Stream) : Stream :=
  if s.cc.appLimited ≠ 0 then
    match s.cc.bbr.state with
    | .probeBw => bbrSetPacingRate env (bbrIdleRestart s)
    | .probeRtt => bbrCheckProbeRttDone s.io.now (bbrIdleRestart s)
    | _ => bbrIdleRestart s
  else s

/-- `bbr_bdp` and `bbr_inflight`, for the use `v` of the environment's
answer. -/
def bbrBdp (v : BbrValue) (s : Stream) : ℕ :=
  if s.cc.bbr.minRttMs = 2 ^ 32 - 1 then 10 else max (env.bbr v s.io.calls % 2 ^ 32) 1

def bbrAckAggregationCwnd (s : Stream) : ℕ :=
  if s.cc.bbr.fullBwReached then
    min (bbrExtraAcked s) (env.bbr .maxAggrCwnd s.io.calls % 2 ^ 32)
  else 0

/-- `max_int32(cwnd - losses, 1)`. -/
def deductLosses (cwnd : ℕ) (losses : ℤ) : ℕ :=
  (max (((cwnd : ℤ) - losses).bmod (2 ^ 32)) 1).toNat

/-- `cwnd` of `bbr_set_cwnd_to_recover_or_restore` after the losses. -/
def bbrCwndAfterLosses (rs : RateSample) (s : Stream) : ℕ :=
  if rs.losses > 0 then deductLosses s.cc.cwnd rs.losses else s.cc.cwnd

/-- The bandwidth state as `bbr_set_cwnd_to_recover_or_restore` enters or
leaves fast recovery. -/
def bbrRecover (s : Stream) : Stream :=
  if s.cc.caState = .recovery ∧ s.cc.bbr.prevCaState ≠ .recovery then
    s.withBbr fun bbr => { bbr with
      usePacketConservation := true
      nextRttDelivered := s.cc.delivered
      prevCaState := s.cc.caState }
  else if s.cc.bbr.prevCaState ≠ .opened ∧ s.cc.caState = .opened then
    s.withBbr fun bbr => { bbr with usePacketConservation := false, prevCaState := s.cc.caState }
  else s.withBbr fun bbr => { bbr with prevCaState := s.cc.caState }

/-- The window of `bbr_set_cwnd_to_recover_or_restore`. -/
def bbrRecoverCwnd (rs : RateSample) (acked : ℕ) (s : Stream) : ℕ :=
  if s.cc.caState = .recovery ∧ s.cc.bbr.prevCaState ≠ .recovery then
    add32 s.tx.inflightQueue.length acked
  else if s.cc.bbr.prevCaState ≠ .opened ∧ s.cc.caState = .opened then
    max (bbrCwndAfterLosses rs s) s.cc.bbr.priorCwnd
  else bbrCwndAfterLosses rs s

/-- The window of `bbr_set_cwnd` where packets are not conserved. -/
def bbrGrowCwnd (cwnd acked : ℕ) (s : Stream) : ℕ :=
  let targetCwnd := add32 (bbrBdp env .bdp s) (bbrAckAggregationCwnd env s)
  let cwnd :=
    if s.cc.bbr.fullBwReached then min (add32 cwnd acked) targetCwnd
    else if cwnd < targetCwnd ∨ s.cc.delivered.toNat < 10 then add32 cwnd acked
    else cwnd
  max cwnd bbrCwndMinTarget

/-- `bbr_set_cwnd` up to the label `done`: the window it stores. -/
def bbrTargetCwnd (rs : RateSample) (acked : ℕ) (s : Stream) : ℕ :=
  if acked = 0 then s.cc.cwnd
  else if (bbrRecover s).cc.bbr.usePacketConservation then
    max (bbrRecoverCwnd rs acked s) (add32 s.tx.inflightQueue.length acked)
  else bbrGrowCwnd env (bbrRecoverCwnd rs acked s) acked s

/-- In PROBE_RTT the window is kept small. -/
def bbrCapCwnd (s : Stream) : Stream :=
  if s.cc.bbr.state = .probeRtt then
    s.withCc fun cc => { cc with cwnd := min cc.cwnd bbrCwndMinTarget }
  else s

def bbrSetCwnd (rs : RateSample) (acked : ℕ) (s : Stream) : Stream :=
  let cwnd := bbrTargetCwnd env rs acked s
  let s := if acked = 0 then s else bbrRecover s
  let s := s.withCc fun cc => { cc with cwnd := cwnd }
  bbrCapCwnd (s.check .bbrCwnd (s.cc.cwnd > 0))

/-- `time_delta_ms`: an `int64_t` difference as `uint32_t`. -/
def timeDeltaMs (t1 t0 : ℕ) : ℕ := toU64 ((t1 : ℤ) - t0) % 2 ^ 32

def bbrIsNextCyclePhase (rs : RateSample) (s : Stream) : Bool :=
  let isFullLength :=
    decide (timeDeltaMs s.cc.deliveredTs s.cc.bbr.cycleTimestamp > s.cc.bbr.minRttMs)
  let inflight := s.tx.inflightQueue.length
  match s.cc.bbr.pacingGain with
  | .eq => isFullLength
  | .gt => isFullLength &&
      (rs.losses != 0 || decide (inflight > bbrBdp env .probeInflight s))
  | .lt => isFullLength || decide (inflight ≤ bbrBdp env .phaseInflight s)

def bbrUpdateCyclePhase (rs : RateSample) (s : Stream) : Stream :=
  if s.cc.bbr.state = .probeBw ∧ bbrIsNextCyclePhase env rs s = true then bbrAdvanceCyclePhase s
  else s

/-- A new packet-timed round trip starts with this sample. -/
def bbrStartRound (rs : RateSample) (s : Stream) : Stream :=
  if seqDiff rs.priorDelivered s.cc.bbr.nextRttDelivered ≥ 0 then
    s.withBbr fun bbr => { bbr with
      nextRttDelivered := s.cc.delivered
      rttCount := add32 bbr.rttCount 1
      roundStart := true
      usePacketConservation := false }
  else s

/-- `bbr_update_bw`; the filtered bandwidth itself is the environment's. -/
def bbrUpdateBw (rs : RateSample) (s : Stream) : Stream :=
  let s := s.withBbr fun bbr => { bbr with roundStart := false }
  if rs.delivered < 0 ∨ rs.intervalMs ≤ 0 then s
  else (bbrStartRound rs s).check .bbrBw (rs.delivered ≠ 0)

/-- `extra_acked` of the next window is cleared. -/
def bbrClearExtraAcked (bbr : Bbr) : Bbr :=
  { bbr with
    extraAckedWinRtts := 0
    extraAckedWinIndex := !bbr.extraAckedWinIndex
    extraAcked :=
      if bbr.extraAckedWinIndex then (0, bbr.extraAcked.2) else (bbr.extraAcked.1, 0) }

/-- The rotation of `extra_acked` at a round start. -/
def bbrRotateExtraAcked (bbr : Bbr) : Bbr :=
  if bbr.roundStart then
    let bbr := { bbr with extraAckedWinRtts := min 0xff (bbr.extraAckedWinRtts + 1) }
    if bbr.extraAckedWinRtts ≥ bbrExtraAckedWinRtts then bbrClearExtraAcked bbr else bbr
  else bbr

/-- Whether the epoch of `bbr_update_ack_aggregation` starts again. -/
def bbrEpochOver (expectedAcked acked : ℕ) (bbr : Bbr) : Bool :=
  decide (bbr.ackEpochAcked ≤ expectedAcked) || decide (bbr.ackEpochAcked + acked ≥ 2 ^ 32 - 1)

/-- The maximum of `extra_acked` in its current window. -/
def bbrMaxExtraAcked (extraAcked : ℕ) (bbr : Bbr) : Bbr :=
  if bbr.extraAckedWinIndex then
    if extraAcked > bbr.extraAcked.2 then
      { bbr with extraAcked := (bbr.extraAcked.1, extraAcked % 2 ^ 16) }
    else bbr
  else if extraAcked > bbr.extraAcked.1 then
    { bbr with extraAcked := (extraAcked % 2 ^ 16, bbr.extraAcked.2) }
  else bbr

/-- What was acknowledged is counted in the epoch. -/
def bbrCountAcked (expectedAcked acked : ℕ) (s : Stream) : Stream :=
  let s := s.check .bbrAckEpoch (add32 s.cc.bbr.ackEpochAcked acked > s.cc.bbr.ackEpochAcked)
  let s := s.withBbr fun bbr => { bbr with ackEpochAcked := add32 bbr.ackEpochAcked acked }
  let extraAcked := (s.cc.bbr.ackEpochAcked + 2 ^ 32 - expectedAcked) % 2 ^ 32
  s.withBbr (bbrMaxExtraAcked (min extraAcked s.cc.cwnd))

def bbrUpdateAckAggregation (rs : RateSample) (s : Stream) : Stream :=
  if rs.ackedSacked = 0 ∨ rs.delivered < 0 ∨ rs.intervalMs ≤ 0 then s
  else
    let expectedAcked := env.bbr .expectedAcked s.io.calls % 2 ^ 32
    let s := s.withBbr bbrRotateExtraAcked
    if bbrEpochOver expectedAcked rs.ackedSacked s.cc.bbr then
      bbrCountAcked 0 rs.ackedSacked (s.withBbr fun bbr => { bbr with
        ackEpochAcked := 0, ackEpochStart := s.cc.deliveredTs })
    else bbrCountAcked expectedAcked rs.ackedSacked s

/-- One more round without growth. -/
def bbrCountFullBw (bbr : Bbr) : Bbr :=
  { bbr with
    fullBwCount := (bbr.fullBwCount + 1) % 2 ^ 8
    fullBwReached := decide ((bbr.fullBwCount + 1) % 2 ^ 8 ≥ bbrFullBwCount) }

def bbrCheckFullBwReached (rs : RateSample) (s : Stream) : Stream :=
  if s.cc.bbr.fullBwReached || !s.cc.bbr.roundStart || rs.isAppLimited then s
  else if env.bbr .bwGrew s.io.calls ≠ 0 then s.withBbr fun bbr => { bbr with fullBwCount := 0 }
  else s.withBbr bbrCountFullBw

/-- STARTUP ends when the bandwidth is known. -/
def bbrStartDrain (s : Stream) : Stream :=
  if s.cc.bbr.state = .startup ∧ s.cc.bbr.fullBwReached = true then
    s.withBbr fun bbr => { bbr with state := .drain }
  else s

def bbrCheckDrain (s : Stream) : Stream :=
  let s := bbrStartDrain s
  if s.cc.bbr.state = .drain ∧ s.tx.inflightQueue.length ≤ bbrBdp env .drainInflight s then
    bbrResetProbeBwMode s
  else s

/-- PROBE_RTT has lasted a round. -/
def bbrProbeRttRound (now : ℕ) (s : Stream) : Stream :=
  let s := s.withBbr fun bbr => { bbr with
    probeRttRoundDone := bbr.probeRttRoundDone || bbr.roundStart }
  if s.cc.bbr.probeRttRoundDone then bbrCheckProbeRttDone now s else s

/-- The part of `bbr_update_min_rtt` that runs in PROBE_RTT. -/
def bbrProbeRtt (now : ℕ) (s : Stream) : Stream :=
  let s := s.withCc fun cc => { cc with
    appLimited := orOne (cc.delivered + BitVec.ofNat 32 s.tx.inflightQueue.length) }
  if s.cc.bbr.probeRttDoneTime = 0 ∧ s.tx.inflightQueue.length ≤ bbrCwndMinTarget then
    s.withBbr fun bbr => { bbr with
      probeRttDoneTime := now + UDX_BBR_MIN_PROBE_RTT_MODE_MS
      probeRttRoundDone := false
      nextRttDelivered := s.cc.delivered }
  else if s.cc.bbr.probeRttDoneTime ≠ 0 then bbrProbeRttRound now s
  else s

/-- `filter_expired` of `bbr_update_min_rtt`. -/
def bbrFilterExpired (s : Stream) : Bool :=
  decide (timeDiff s.io.now (s.cc.bbr.minRttStamp + UDX_BBR_MIN_RTT_INTERVAL_MS) > 0)

/-- A lower round trip, or the first after the old one has expired. -/
def bbrTakeMinRtt (rs : RateSample) (expired : Bool) (s : Stream) : Stream :=
  if rs.rttMs ≥ 0 ∧ (rs.rttMs < s.cc.bbr.minRttMs ∨ (expired && !rs.isAckDelayed) = true) then
    s.withBbr fun bbr => { bbr with
      minRttMs := if rs.rttMs ≠ 0 then rs.rttMs.toNat else 1
      minRttStamp := s.io.now }
  else s

def bbrEnterProbeRtt (expired : Bool) (s : Stream) : Stream :=
  if expired && !s.cc.bbr.idleRestart && s.cc.bbr.state != .probeRtt then
    (bbrSaveCwnd (s.withBbr fun bbr => { bbr with state := .probeRtt })).withBbr fun bbr =>
      { bbr with probeRttDoneTime := 0 }
  else s

def bbrInProbeRtt (s : Stream) : Stream :=
  if s.cc.bbr.state = .probeRtt then bbrProbeRtt s.io.now s else s

def bbrUpdateMinRtt (rs : RateSample) (s : Stream) : Stream :=
  let expired := bbrFilterExpired s
  let s := bbrInProbeRtt (bbrEnterProbeRtt expired (bbrTakeMinRtt rs expired s))
  s.withBbr fun bbr => { bbr with
    idleRestart := bbr.idleRestart && !decide (rs.delivered > 0) }

/-- How the gain of phase `i` of `bbr_pacing_gain` compares with 1. -/
def bbrPacingGain (i : ℕ) : Ordering := if i = 0 then .gt else if i = 1 then .lt else .eq

def bbrUpdateGains (s : Stream) : Stream :=
  s.withBbr fun bbr => { bbr with
    pacingGain :=
      match bbr.state with
      | .startup => .gt
      | .drain => .lt
      | .probeBw => bbrPacingGain bbr.cycleIndex
      | .probeRtt => .eq }

def bbrUpdateModel (rs : RateSample) (s : Stream) : Stream :=
  let s := bbrUpdateBw rs s
  let s := bbrUpdateAckAggregation env rs s
  let s := bbrUpdateCyclePhase env rs s
  let s := bbrCheckFullBwReached env rs s
  let s := bbrCheckDrain env s
  let s := bbrUpdateMinRtt rs s
  bbrUpdateGains s

def bbrMain (rs : RateSample) (s : Stream) : Stream :=
  let s := bbrUpdateModel env rs s
  let s := bbrSetPacingRate env s
  (bbrSetCwnd env rs rs.ackedSacked s).asked

def bbrOnRto (s : Stream) : Stream :=
  s.withBbr fun bbr => { bbr with prevCaState := .loss, roundStart := true }

end Bbr

end Udx
