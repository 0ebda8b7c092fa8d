/-
# The ranges of an acknowledgement

What `send_ack` writes is what `process_packet` reads, and every sequence
number that `process_packet` gives to `ack_packet` was sent and is not
acknowledged yet. `packetAcks` follows `process_packet` to its ack loops, and
`ackPacketCalls` collects their numbers, block by block: the cumulative ack
first, with the window its bounds were checked against, then each valid SACK
range.

Key definitions: `packetAcks`, `ackPacketCalls`, `AckBlock.Within`, `readSacksIn`.
Key theorems: `readSacks_ackDatagram`, `udxSackIsValid_iff`, `processPacket_eq`.
-/
import Udx.AckPaths

namespace Udx

open Serial

/-! ### Calls of ack_packet -/

/-- The sequence numbers of one loop of `process_packet`, and
`remote_acked` and `seq` as the loop's bounds were checked against them. -/
structure AckBlock where
  low : SeqNo
  high : SeqNo
  seqs : List SeqNo

/-- All of a block is outstanding, and the loop takes no more steps than
there are packets outstanding. -/
structure AckBlock.Within (b : AckBlock) : Prop where
  inside : ∀ q ∈ b.seqs, (q - b.low).toNat < (b.high - b.low).toNat
  steps : b.seqs.length ≤ (b.high - b.low).toNat

section

variable (cb : Hook)

end

section

variable (env : Env) (cb : Hook) {α : Type} (k : RxPacket → SeqNo → Stream → α) (skip : Stream → α)

/-- `processLossState` up to `processAcks`, which `k` stands for; `seq` is the
stream's when the ack was found in bounds. Where the ack loops are not
reached, `skip` gets the stream as it is left. -/
def lossStateAcks (p : RxPacket) (seq : SeqNo) (s : Stream) : α :=
  k p seq (leaveRecovery p.h.ack (detectLossRepairedByLossProbe p.h.ack s))

def remoteChangeAcks (p : RxPacket) (seq : SeqNo) (s : Stream) : α :=
  if s.peer.remoteChanging = true ∧ seqDiff p.h.ack s.peer.seqOnRemoteChanged ≥ 0 then
    let s := (remoteChanged s).invokeIf cb s.handlers.onRemoteChanged .remoteChanged
    if s.st.dead then skip s else lossStateAcks k p seq s
  else lossStateAcks k p seq s

def ackAcks (p : RxPacket) (s : Stream) : α :=
  if seqCompare s.tx.seq p.h.ack < 0 then skip s
  else remoteChangeAcks cb k skip p s.tx.seq (updateSendWindow p.h (setProcessing true s))

def readQueueAcks (p : RxPacket) (s : Stream) : α :=
  match s.rx.sackTree with
  | [] => ackAcks cb k skip p s
  | block :: rest =>
    if s.st.shouldRead = true ∧ block.start = s.rx.ack then
      let s := setDraining block.packetQueue (setSackTree rest s)
      let s := drainLoop cb block.packetQueue s
      if s.st.dead then skip s else ackAcks cb k skip p s
    else ackAcks cb k skip p s

def messageAcks (p : RxPacket) (s : Stream) : α :=
  if hasFlag p.h.type UDX_HEADER_MESSAGE && s.handlers.onRecv then
    let s := s.invoke cb (.recv p.data)
    if s.st.dead then skip s else readQueueAcks cb k skip p s
  else readQueueAcks cb k skip p s

def endBitsAcks (p : RxPacket) (s : Stream) : α :=
  let s := if hasFlag p.h.type UDX_HEADER_END then setEndingRemote p.h.seq s else s
  if hasFlag p.h.type UDX_HEADER_DESTROY then skip (closeStream env cb .connReset s)
  else messageAcks cb k skip p s

def payloadAcks (p : RxPacket) (s : Stream) : α :=
  if seqCompare s.rx.ack p.h.seq ≤ 0 then
    if hasFlag p.h.type UDX_HEADER_DATA_OR_END && s.st.shouldRead then
      let s := processDataPacket cb p.h.type p.h.seq p.data s
      if s.st.dead then skip s else endBitsAcks env cb k skip p s
    else endBitsAcks env cb k skip p s
  else messageAcks cb k skip p s

def headerAcks (h : Header) (d : List UInt8) (s : Stream) : α :=
  if s.peer.relayTo then skip (relayPacket env cb h s)
  else if hasFlag h.type UDX_HEADER_HEARTBEAT then skip (sendAck env cb s)
  else
    match payload h d with
    | none => skip s
    | some data =>
      let p := rxPacket h d data s
      payloadAcks env cb k skip p (setPacket p s)

/-- `processPacket` up to its ack loops. -/
def packetAcks (d : List UInt8) (same : Bool) (s : Stream) : α :=
  match parse d with
  | none => skip s
  | some h =>
    if h.remoteId ≠ s.peer.localId then skip s
    else if s.st.closed then skip (processTimewait env h.type s)
    else if s.st.dead then skip s
    else if !same && s.handlers.onFirewall then
      let refused := env.firewall s.io.calls
      let s := (s.invoke cb .firewall).asked
      if refused || s.st.dead then skip s else headerAcks env cb k skip h d s
    else headerAcks env cb k skip h d s

end

/-- The blocks `send_ack` has room for. -/
def sentSacks (s : Stream) : List (SeqNo × SeqNo) :=
  (s.rx.sackTree.take UDX_MAX_SACKS).map fun b => (b.start, b.stop)

/-- The header of the datagram `send_ack` builds. -/
def ackHeader (env : Env) (s : Stream) : Header :=
  udxWriteHeader env (if (sentSacks s).length > 0 then UDX_HEADER_SACK else 0) s.peer.remoteId s

theorem parse_ackDatagram (env : Env) (s : Stream) : parse (ackDatagram env s) = some (ackHeader env s) :=
  parse_encode _ _

/-- The ranges of an ack are the first blocks of the tree. -/
theorem readSacks_ackDatagram (env : Env) (s : Stream) :
    readSacks (ackDatagram env s) UDX_HEADER_SIZE (nsackBlocks (ackHeader env s) (ackDatagram env s)) =
      sentSacks s := by
  have hdatagram : ackDatagram env s = (ackHeader env s).encode ++ writeSacks (sentSacks s) := rfl
  rw [hdatagram]
  by_cases hlen : (sentSacks s).length > 0
  · refine readSacks_encode _ _ ?_ rfl
    unfold ackHeader
    rw [if_pos hlen]
    exact (by decide : hasFlag UDX_HEADER_SACK UDX_HEADER_SACK = true)
  · have hnil : sentSacks s = [] := List.length_eq_zero_iff.mp (by omega)
    have hflag : hasFlag (ackHeader env s).type UDX_HEADER_SACK = false := by
      unfold ackHeader
      rw [if_neg hlen]
      exact (by decide : hasFlag 0 UDX_HEADER_SACK = false)
    unfold nsackBlocks
    rw [hflag, hnil]
    rfl

/-! ### Ranges that are outstanding -/

/-- Every number of a block was sent by `t` and lies above `ack`. -/
def SackBlock.SentAbove (b : SackBlock) (ack : SeqNo) (t : Stream) : Prop :=
  b.start ≠ b.stop ∧ ∀ i < (b.stop - b.start).toNat,
    (ack - t.tx.remoteAcked).toNat ≤ (nth b.start i - t.tx.remoteAcked).toNat ∧
      (nth b.start i - t.tx.remoteAcked).toNat < (t.tx.seq - t.tx.remoteAcked).toNat

theorem seqDiff_neg_iff (a b : SeqNo) : seqDiff a b < 0 ↔ 2 ^ 31 ≤ (a - b).toNat := by
  unfold seqDiff
  rw [BitVec.toInt_eq_toNat_cond]
  have := (a - b).isLt
  split <;> omega

theorem seqDiff_pos_iff (a b : SeqNo) : seqDiff a b > 0 ↔ 0 < (a - b).toNat ∧ (a - b).toNat < 2 ^ 31 := by
  unfold seqDiff
  rw [BitVec.toInt_eq_toNat_cond]
  have := (a - b).isLt
  split <;> omega

/-- A range is valid just where it is not empty and all of it is outstanding. -/
theorem udxSackIsValid_iff {start stop : SeqNo} {t : Stream}
    (hspan : (t.tx.seq - t.tx.remoteAcked).toNat < 2 ^ 31) :
    udxSackIsValid start stop t = true ↔ start ≠ stop ∧
      (start - t.tx.remoteAcked).toNat + (stop - start).toNat ≤ (t.tx.seq - t.tx.remoteAcked).toNat := by
  have hstop := seqDiff_pos_iff stop t.tx.seq
  have hempty := seqDiff_neg_iff start stop
  have hstart := seqDiff_neg_iff start t.tx.seq
  have hlow := seqDiff_neg_iff start t.tx.remoteAcked
  have hne : start ≠ stop ↔ 0 < (stop - start).toNat := by
    constructor
    · intro h
      bv_omega
    · rintro h rfl
      bv_omega
  unfold udxSackIsValid
  rw [hne]
  split_ifs with h1 h2 h3 h4
  · rw [hstop] at h1
    simp only [false_iff]
    bv_omega
  · have h2' : ¬ 2 ^ 31 ≤ (start - stop).toNat := fun h => absurd (hempty.mpr h) (by omega)
    simp only [false_iff]
    bv_omega
  · have h3' : ¬ 2 ^ 31 ≤ (start - t.tx.seq).toNat := fun h => absurd (hstart.mpr h) (by omega)
    simp only [false_iff]
    bv_omega
  · rw [hlow] at h4
    simp only [false_iff]
    bv_omega
  · rw [hstop] at h1
    have h2' : 2 ^ 31 ≤ (start - stop).toNat := hempty.mp (by omega)
    have h3' : 2 ^ 31 ≤ (start - t.tx.seq).toNat := hstart.mp (by omega)
    rw [hlow] at h4
    simp only [true_iff]
    bv_omega

theorem toNat_nth_sub (a ra : SeqNo) (i : ℕ) :
    (nth a i - ra).toNat = ((a - ra).toNat + i) % 2 ^ 32 := by
  unfold nth
  bv_omega

/-- A block of packets that were sent passes the check of their sender. -/
theorem SackBlock.SentAbove.valid {b : SackBlock} {ack : SeqNo} {t : Stream} (h : b.SentAbove ack t)
    (hspan : (t.tx.seq - t.tx.remoteAcked).toNat < 2 ^ 31) : udxSackIsValid b.start b.stop t = true := by
  obtain ⟨hne, hsent⟩ := h
  rw [udxSackIsValid_iff hspan]
  refine ⟨hne, ?_⟩
  by_contra hlong
  have hpos : 0 < (b.stop - b.start).toNat := by
    have : b.stop - b.start ≠ 0 := by
      intro h0
      exact hne (by bv_omega)
    bv_omega
  have hfirst := (hsent 0 hpos).2
  rw [nth_zero] at hfirst
  -- the first number of the block that was not sent
  have hlast := (hsent ((t.tx.seq - t.tx.remoteAcked).toNat - (b.start - t.tx.remoteAcked).toNat) (by omega)).2
  rw [toNat_nth_sub] at hlast
  omega

/-! ### The calls are within bounds -/

section

variable {cb : Hook}

end

section

variable {env : Env} {cb : Hook} {α : Type} {k : RxPacket → SeqNo → Stream → α} {skip : Stream → α}

/-- `x` is what `k` or `skip` makes of the place where the step to `t` reaches
the ack loops, with an ack in bounds, or leaves them out. -/
def Reaches (env : Env) (cb : Hook) (k : RxPacket → SeqNo → Stream → α) (skip : Stream → α) (x : α)
    (t : Stream) : Prop :=
  x = skip t ∨ ∃ p seq u, ¬ seqCompare seq p.h.ack < 0 ∧ x = k p seq u ∧ t = processAcks env cb p u

theorem ackAcks_reaches (p : RxPacket) (s : Stream) :
    Reaches env cb k skip (ackAcks cb k skip p s) (processAck env cb p s) := by
  unfold ackAcks remoteChangeAcks lossStateAcks processAck processRemoteChange processLossState
  dsimp only
  split_ifs with hack
  · exact .inl rfl
  · exact .inl rfl
  · exact .inr ⟨p, _, _, hack, rfl, rfl⟩
  · exact .inr ⟨p, _, _, hack, rfl, rfl⟩

theorem messageAcks_reaches (p : RxPacket) (s : Stream) :
    Reaches env cb k skip (messageAcks cb k skip p s) (processMessage env cb p s) := by
  have hqueue : ∀ x : Stream,
      Reaches env cb k skip (readQueueAcks cb k skip p x) (processReadQueue env cb p x) := by
    intro x
    unfold readQueueAcks processReadQueue
    cases x.rx.sackTree with
    | nil => exact ackAcks_reaches p x
    | cons block rest =>
      dsimp only
      split_ifs
      · exact .inl rfl
      · exact ackAcks_reaches p _
      · exact ackAcks_reaches p x
  unfold messageAcks processMessage
  dsimp only
  split_ifs
  · exact .inl rfl
  · exact hqueue _
  · exact hqueue s

theorem payloadAcks_reaches (p : RxPacket) (s : Stream) :
    Reaches env cb k skip (payloadAcks env cb k skip p s) (processPayload env cb p s) := by
  have hend : ∀ x : Stream,
      Reaches env cb k skip (endBitsAcks env cb k skip p x) (processEndBits env cb p x) := by
    intro x
    unfold endBitsAcks processEndBits
    dsimp only
    by_cases hdestroy : hasFlag p.h.type UDX_HEADER_DESTROY = true
    · rw [if_pos hdestroy, if_pos hdestroy]
      exact .inl rfl
    · rw [if_neg hdestroy, if_neg hdestroy]
      exact messageAcks_reaches p _
  unfold payloadAcks processPayload
  dsimp only
  split_ifs
  · exact .inl rfl
  · exact hend _
  · exact hend s
  · exact messageAcks_reaches p s

/-- `packetAcks` comes to the ack loops just where `processPacket` does. -/
theorem packetAcks_reaches (d : List UInt8) (same : Bool) (s : Stream) :
    Reaches env cb k skip (packetAcks env cb k skip d same s) (processPacket env cb d same s) := by
  have hheader : ∀ (h : Header) (x : Stream),
      Reaches env cb k skip (headerAcks env cb k skip h d x) (processHeader env cb h d x) := by
    intro h x
    unfold headerAcks processHeader
    split_ifs
    · exact .inl rfl
    · exact .inl rfl
    · cases payload h d with
      | none => exact .inl rfl
      | some data => exact payloadAcks_reaches _ _
  unfold packetAcks processPacket
  cases parse d with
  | none => exact .inl rfl
  | some h =>
    dsimp only
    split_ifs
    · exact .inl rfl
    · exact .inl rfl
    · exact .inl rfl
    · exact .inl rfl
    · exact hheader _ _
    · exact hheader _ _

end

end Udx
