/-
# Recovery episodes

Fast recovery and the retransmission timeout start an episode at `seq`, and it
lasts until the cumulative ack has left `high_seq` behind. While it lasts, a
packet sent before its start is not yet acknowledged, unless an ack has stopped
at `high_seq` itself: that ack covers all that was sent before, and the test
for the end of the episode is `ack > high_seq`.

Key definitions: `Pace`, `Paced`, `Stream.Slotted`, `Punctual`.
Key theorems: `Paced.sound`, `Paced.slotted`, `Reach.episodes`.
-/
import Udx.Keepalive
import Udx.Numbered
import Udx.Queues

namespace Udx

open Serial

/-! ### Offsets -/

theorem seqDiff_nonneg {a b : SeqNo} : seqDiff a b ≥ 0 ↔ (a - b).toNat < 2 ^ 31 := by
  unfold seqDiff
  rw [BitVec.toInt_eq_toNat_cond]
  have h := (a - b).isLt
  split <;> omega

theorem seqDiff_pos {a b : SeqNo} : seqDiff a b > 0 ↔ 0 < (a - b).toNat ∧ (a - b).toNat < 2 ^ 31 := by
  unfold seqDiff
  rw [BitVec.toInt_eq_toNat_cond]
  have h := (a - b).isLt
  split <;> omega

theorem seqCompare_lt {a b : SeqNo} : seqCompare a b < 0 ↔ 2 ^ 31 ≤ (a - b).toNat := by
  have h := seqDiff_nonneg (a := a) (b := b)
  rw [seqCompare_neg]
  omega

theorem seqCompare_gt {a b : SeqNo} :
    seqCompare a b > 0 ↔ 0 < (a - b).toNat ∧ (a - b).toNat < 2 ^ 31 := by
  rw [seqCompare_pos, seqDiff_pos]

/-! ### What an episode goes by -/

/-- The numbers of the sender, the datagram in hand and the episode. -/
structure Pace where
  seq : SeqNo
  remoteAcked : SeqNo
  packet : Option RxPacket
  processing : Bool
  cursor : Option SeqNo
  caState : CaState
  highSeq : SeqNo

def Core.pace (c : Core) : Pace :=
  { seq := c.tx.seq, remoteAcked := c.tx.remoteAcked, packet := c.ctl.packet
    processing := c.ctl.processing, cursor := c.ctl.cursor
    caState := c.cc.caState, highSeq := c.cc.highSeq }

/-- The first number that the cumulative ack has not passed. -/
def Pace.low (c : Pace) : SeqNo := c.cursor.getD c.remoteAcked

/-- An episode lasts no longer than something from before its start is
outstanding, and an ack that moves `remote_acked` is within what was sent. -/
structure Pace.Sound (c : Pace) : Prop where
  room : (c.seq - c.remoteAcked).toNat < 2 ^ 31
  reading : c.cursor.isSome = true → c.packet.isSome = true
  advanced : ∀ p, c.packet = some p →
    p.ackAdvanced = decide (seqDiff p.h.ack p.priorRemoteAcked > 0)
  within : ∀ p, c.packet = some p → c.processing = true → p.priorRemoteAcked = c.remoteAcked →
    if p.ackAdvanced then (p.h.ack - c.remoteAcked).toNat ≤ (c.seq - c.remoteAcked).toNat
    else ¬ seqCompare c.remoteAcked p.h.ack < 0
  counting : ∀ p, c.packet = some p → c.cursor.isSome = true →
    c.processing = true ∧ p.priorRemoteAcked = c.remoteAcked
  passed : ∀ p k, c.packet = some p → c.cursor = some k → k = c.remoteAcked ∨
    p.ackAdvanced = true ∧ (k - c.remoteAcked).toNat ≤ (p.h.ack - c.remoteAcked).toNat
  episode : c.caState ≠ .opened → 0 < (c.highSeq - c.remoteAcked).toNat ∧
    (c.highSeq - c.remoteAcked).toNat ≤ (c.seq - c.remoteAcked).toNat
  uncovered : ∀ p, c.packet = some p → c.cursor.isSome = true → c.caState ≠ .opened →
    p.ackAdvanced = true →
    (p.h.ack - c.remoteAcked).toNat < (c.highSeq - c.remoteAcked).toNat

/-- What the steps of the sender do to it. -/
inductive Paced : Stream → Stream → Prop
  | same {s t : Stream} (h : t.pace = s.pace) : Paced s t
  | dead {s t : Stream} (h : t.st.dead = true) : Paced s t
  | finish {s t : Stream} (hcur : s.ctl.cursor = none)
    (h : t.pace = { s.pace with packet := none, processing := false, cursor := none }) : Paced s t
  | packet (p : RxPacket) {s t : Stream} (hprior : p.priorRemoteAcked = s.tx.remoteAcked)
    (hadv : p.ackAdvanced = decide (seqDiff p.h.ack s.tx.remoteAcked > 0))
    (hproc : s.ctl.processing = false) (hcur : s.ctl.cursor = none)
    (h : t.pace = { s.pace with packet := some p }) : Paced s t
  | number (n : SeqNo) {s t : Stream} (hfwd : (n - s.tx.seq).toNat ≤ 2 ^ 31)
    (hroom : (n - s.tx.remoteAcked).toNat < 2 ^ 31) (h : t.pace = { s.pace with seq := n }) :
    Paced s t
  | enter (x : CaState) {s t : Stream} (hx : x ≠ .opened) (hcur : s.ctl.cursor = none)
    (hout : s.tx.seq ≠ s.tx.remoteAcked)
    (h : t.pace = { s.pace with caState := x, highSeq := s.tx.seq }) : Paced s t
  | window (p : RxPacket) {s t : Stream} (hp : s.ctl.packet = some p)
    (hack : ¬ seqCompare s.tx.seq p.h.ack < 0)
    (h : t.pace = { s.pace with processing := true }) : Paced s t
  | ackInit (p : RxPacket) {s t : Stream} (hp : s.ctl.packet = some p) (hcur : s.ctl.cursor = none)
    (hproc : s.ctl.processing = true) (hprior : p.priorRemoteAcked = s.tx.remoteAcked)
    (hne : s.cc.caState ≠ .opened → p.h.ack ≠ s.cc.highSeq) (ht : t = ackInit p s)
    (h : t.pace = { s.pace with
      cursor := some p.priorRemoteAcked
      caState := if seqCompare p.h.ack s.cc.highSeq > 0 then .opened else s.cc.caState }) : Paced s t
  | count (p : RxPacket) (c : SeqNo) {s t : Stream} (hp : s.ctl.packet = some p)
    (hc : s.ctl.cursor = some c) (hlt : seqCompare c p.h.ack < 0)
    (hnone : t.tx.outgoing c = none) (h : t.pace = { s.pace with cursor := some (c + 1) }) : Paced s t
  | advance (p : RxPacket) (c : SeqNo) {s t : Stream} (hp : s.ctl.packet = some p)
    (hc : s.ctl.cursor = some c)
    (hend : ¬ seqCompare c p.h.ack < 0 ∨ t.tx.inflightQueue = [] ∧ t.tx.retransmitQueue = [])
    (h : t.pace = { s.pace with
      cursor := none, remoteAcked := if p.ackAdvanced then p.h.ack else s.tx.remoteAcked }) : Paced s t
  | processed {s t : Stream} (hcur : s.ctl.cursor = none)
    (h : t.pace = { s.pace with processing := false }) : Paced s t

/-- A cursor that has not reached the ack: the ack moves `remote_acked`. -/
theorem Pace.Sound.moves {c : Pace} (h : c.Sound) {p : RxPacket} {k : SeqNo}
    (hp : c.packet = some p) (hc : c.cursor = some k) (hlt : seqCompare k p.h.ack < 0) :
    p.ackAdvanced = true := by
  obtain ⟨hproc, hprior⟩ := h.counting p hp (by rw [hc]; rfl)
  rcases h.passed p k hp hc with rfl | ⟨hadv, -⟩
  · by_contra hadv
    have hwithin := h.within p hp hproc hprior
    rw [if_neg hadv] at hwithin
    exact hwithin hlt
  · exact hadv

theorem Paced.sound {s t : Stream} (h : Paced s t) (hs : s.pace.Sound) (hlive : t.st.dead = false) :
    t.pace.Sound := by
  cases h with
  | same h => exact h ▸ hs
  | dead h => exact absurd (hlive.symm.trans h) Bool.false_ne_true
  | finish hcur h =>
    rw [h]
    exact ⟨hs.room, nofun, nofun, nofun, nofun, nofun, hs.episode, nofun⟩
  | packet p hprior hadv hproc hcur h =>
    rw [h]
    have hnone : ¬ s.ctl.cursor.isSome = true := by simp [hcur]
    refine ⟨hs.room, fun _ => rfl, fun q hq => ?_, fun q _ hq => ?_, fun q _ hq => absurd hq hnone,
      fun q k _ hq => absurd (congrArg Option.isSome hq) hnone, hs.episode,
      fun q _ hq => absurd hq hnone⟩
    · obtain rfl : p = q := Option.some.inj hq
      rw [hprior]
      exact hadv
    · exact absurd (hproc.symm.trans hq) Bool.false_ne_true
  | number n hfwd hroom h =>
    have hgrow : (s.tx.seq - s.tx.remoteAcked).toNat ≤ (n - s.tx.remoteAcked).toNat := by
      have := hs.room
      unfold Core.pace at this
      bv_omega
    rw [h]
    refine ⟨hroom, hs.reading, hs.advanced, fun p hp hproc hprior => ?_, hs.counting, hs.passed,
      fun hca => ⟨(hs.episode hca).1, Nat.le_trans (hs.episode hca).2 hgrow⟩, hs.uncovered⟩
    have hwithin := hs.within p hp hproc hprior
    split at hwithin
    · next hadv =>
      rw [if_pos hadv]
      exact Nat.le_trans hwithin hgrow
    · next hadv =>
      rw [if_neg hadv]
      exact hwithin
  | enter x hx hcur hout h =>
    rw [h]
    have hnone : ¬ s.ctl.cursor.isSome = true := by simp [hcur]
    refine ⟨hs.room, hs.reading, hs.advanced, hs.within, hs.counting, hs.passed,
      fun _ => ⟨?_, Nat.le_refl _⟩, fun q _ hq => absurd hq hnone⟩
    show 0 < (s.tx.seq - s.tx.remoteAcked).toNat
    bv_omega
  | window p hp hack h =>
    rw [h]
    refine ⟨hs.room, hs.reading, hs.advanced, fun q hq _ hprior => ?_,
      fun q hq hcur => ⟨rfl, (hs.counting q hq hcur).2⟩, hs.passed, hs.episode, hs.uncovered⟩
    obtain rfl : p = q := Option.some.inj (hp.symm.trans hq)
    have hadv := hs.advanced p hp
    have hroom : (s.tx.seq - s.tx.remoteAcked).toNat < 2 ^ 31 := hs.room
    have hprior' : p.priorRemoteAcked = s.tx.remoteAcked := hprior
    rw [hprior'] at hadv
    rw [seqCompare_lt] at hack
    show if p.ackAdvanced then (p.h.ack - s.tx.remoteAcked).toNat ≤
      (s.tx.seq - s.tx.remoteAcked).toNat else ¬ seqCompare s.tx.remoteAcked p.h.ack < 0
    split
    · next ha =>
      have hpos := seqDiff_pos.mp (of_decide_eq_true (hadv.symm.trans ha))
      bv_omega
    · next ha =>
      have hnpos : ¬ seqDiff p.h.ack s.tx.remoteAcked > 0 := fun hpos =>
        ha (hadv.trans (decide_eq_true hpos))
      rw [seqDiff_pos] at hnpos
      rw [seqCompare_lt]
      bv_omega
  | ackInit p hp hcur hproc hprior hne ht h =>
    rw [h]
    have hroom : (s.tx.seq - s.tx.remoteAcked).toNat < 2 ^ 31 := hs.room
    refine ⟨hs.room, fun _ => congrArg Option.isSome hp, hs.advanced, hs.within, fun q hq _ => ?_,
      fun q k hq hk => ?_, fun hca => hs.episode fun ho => hca ?_, fun q hq _ hca hadv => ?_⟩
    · obtain rfl : p = q := Option.some.inj (hp.symm.trans hq)
      exact ⟨hproc, hprior⟩
    · exact .inl ((Option.some.inj hk).symm.trans hprior)
    · show (if seqCompare p.h.ack s.cc.highSeq > 0 then CaState.opened else s.cc.caState) = .opened
      split
      · rfl
      · exact ho
    · obtain rfl : p = q := Option.some.inj (hp.symm.trans hq)
      have hkept : ¬ seqCompare p.h.ack s.cc.highSeq > 0 ∧ s.cc.caState ≠ .opened := by
        have hca' : (if seqCompare p.h.ack s.cc.highSeq > 0 then CaState.opened
          else s.cc.caState) ≠ .opened := hca
        split at hca'
        · exact absurd rfl hca'
        · next hgt => exact ⟨hgt, hca'⟩
      obtain ⟨hngt, hopen⟩ := hkept
      obtain ⟨hpos, hle⟩ := hs.episode hopen
      have hwithin := hs.within p hp hproc hprior
      rw [if_pos hadv] at hwithin
      have hack := hne hopen
      rw [seqCompare_gt] at hngt
      show (p.h.ack - s.tx.remoteAcked).toNat < (s.cc.highSeq - s.tx.remoteAcked).toNat
      unfold Core.pace at hpos hle hwithin
      dsimp only at hpos hle hwithin
      bv_omega
  | count p c hp hc hlt hnone h =>
    have hadv := hs.moves hp hc hlt
    obtain ⟨hproc, hprior⟩ := hs.counting p hp (congrArg Option.isSome hc)
    have hroom : (s.tx.seq - s.tx.remoteAcked).toNat < 2 ^ 31 := hs.room
    have hwithin := hs.within p hp hproc hprior
    rw [if_pos hadv] at hwithin
    have hpassed := hs.passed p c hp hc
    rw [seqCompare_lt] at hlt
    rw [h]
    refine ⟨hs.room, fun _ => congrArg Option.isSome hp, hs.advanced, hs.within,
      fun q hq _ => hs.counting q hq (congrArg Option.isSome hc), fun q k hq hk => ?_, hs.episode,
      fun q hq _ => hs.uncovered q hq (congrArg Option.isSome hc)⟩
    obtain rfl : p = q := Option.some.inj (hp.symm.trans hq)
    obtain rfl : c + 1 = k := Option.some.inj hk
    refine .inr ⟨hadv, ?_⟩
    unfold Core.pace at hwithin hpassed
    dsimp only at hwithin hpassed
    show (c + 1 - s.tx.remoteAcked).toNat ≤ (p.h.ack - s.tx.remoteAcked).toNat
    rcases hpassed with rfl | ⟨-, hle⟩
    · bv_omega
    · bv_omega
  | advance p c hp hc hend h =>
    obtain ⟨hproc, hprior⟩ := hs.counting p hp (congrArg Option.isSome hc)
    have hroom : (s.tx.seq - s.tx.remoteAcked).toNat < 2 ^ 31 := hs.room
    have hwithin := hs.within p hp hproc hprior
    have hadvanced := hs.advanced p hp
    rw [h]
    by_cases hadv : p.ackAdvanced = true
    · rw [if_pos hadv] at hwithin ⊢
      have hpos := seqDiff_pos.mp (of_decide_eq_true (hadvanced.symm.trans hadv))
      unfold Core.pace at hwithin hprior
      dsimp only at hwithin hprior
      refine ⟨?_, nofun, hs.advanced, fun q hq _ heq => ?_, nofun, nofun, fun hca => ?_, nofun⟩
      · show (s.tx.seq - p.h.ack).toNat < 2 ^ 31
        bv_omega
      · obtain rfl : p = q := Option.some.inj (hp.symm.trans hq)
        have heq' : p.priorRemoteAcked = p.h.ack := heq
        rw [heq', BitVec.sub_self] at hpos
        exact absurd hpos.1 (Nat.lt_irrefl _)
      · obtain ⟨hlow, hhigh⟩ := hs.episode hca
        have hopen := hs.uncovered p hp (congrArg Option.isSome hc) hca hadv
        unfold Core.pace at hlow hhigh hopen
        dsimp only at hlow hhigh hopen
        show 0 < (s.cc.highSeq - p.h.ack).toNat ∧
          (s.cc.highSeq - p.h.ack).toNat ≤ (s.tx.seq - p.h.ack).toNat
        constructor <;> bv_omega
    · rw [if_neg hadv]
      exact ⟨hs.room, nofun, hs.advanced, hs.within, nofun, nofun, hs.episode, nofun⟩
  | processed hcur h =>
    rw [h]
    have hnone : ¬ s.ctl.cursor.isSome = true := by simp [hcur]
    exact ⟨hs.room, hs.reading, hs.advanced, nofun, fun q _ hq => absurd hq hnone, hs.passed,
      hs.episode, fun q _ hq => absurd hq hnone⟩

/-! ### The packets that are out -/

/-- Packet `k` is queued. -/
def Tx.Queues (t : Tx) (k : ℕ) : Prop := k ∈ t.inflightQueue ∨ k ∈ t.retransmitQueue

/-- What is queued has its slot among the `n` numbers from `low`. -/
def Tx.HeldFrom (t : Tx) (low : SeqNo) (n : ℕ) : Prop :=
  ∀ k, t.Queues k → ∃ a, t.outgoing a = some k ∧ (a - low).toNat < n

/-- What is queued has its slot among the numbers that the cumulative ack has
not passed. -/
def Stream.Slotted (s : Stream) : Prop :=
  s.tx.HeldFrom s.pace.low (s.tx.seq - s.pace.low).toNat

namespace Tx

variable {t u : Tx} {j k : ℕ}

theorem queues_congr (h : u.flight = t.flight) (k : ℕ) : u.Queues k ↔ t.Queues k := by
  have hin : u.inflightQueue = t.inflightQueue := (congrArg Tx.inflightQueue h :)
  have hre : u.retransmitQueue = t.retransmitQueue := (congrArg Tx.retransmitQueue h :)
  unfold Queues
  rw [hin, hre]

theorem HeldFrom.mono {low : SeqNo} {m n : ℕ} (h : t.HeldFrom low m) (hle : m ≤ n) :
    t.HeldFrom low n := by
  intro k hk
  obtain ⟨a, ha, hlt⟩ := h k hk
  exact ⟨a, ha, Nat.lt_of_lt_of_le hlt hle⟩

theorem HeldFrom.of_sub {low : SeqNo} {n : ℕ} (h : t.HeldFrom low n)
    (hout : u.outgoing = t.outgoing) (hq : ∀ k, u.Queues k → t.Queues k) : u.HeldFrom low n := by
  intro k hk
  rw [hout]
  exact h k (hq k hk)

theorem Queues.of_markLost (hj : t.Queues j) (h : (t.markLost j).Queues k) : t.Queues k := by
  rcases h with h | h
  · exact .inl (List.mem_of_mem_erase h)
  · rcases List.mem_append.mp h with h | h
    · exact .inr h
    · exact List.mem_singleton.mp h ▸ hj

/-- A packet that is sent joins those in flight. -/
theorem Queues.of_launch {p : Packet} (h : (t.launch j p).Queues k) : t.Queues k ∨ k = j := by
  rw [launch_eq] at h
  rcases h with h | h
  · rcases List.mem_append.mp h with h | h
    · exact .inl (.inl h)
    · exact .inr (List.mem_singleton.mp h)
  · have hmem : k ∈ (if p.lost then t.retransmitQueue.erase j else t.retransmitQueue) := h
    split at hmem
    · exact .inl (.inr (List.mem_of_mem_erase hmem))
    · exact .inl (.inr hmem)

/-- A packet that is acknowledged leaves its queue. -/
theorem Queues.of_removeAcked {now n : ℕ} {a : SeqNo} {sack : Bool} (h : Queued now n t)
    (hk : (t.removeAcked a j sack).Queues k) : t.Queues k ∧ k ≠ j := by
  have hre : (t.pkts j).lost = true → k ∈ t.retransmitQueue.erase j ∨ k ∈ t.inflightQueue →
      t.Queues k ∧ k ≠ j := by
    rintro hlost (hmem | hmem)
    · exact ⟨.inr (List.mem_of_mem_erase hmem), fun hkj => h.retransmit.not_mem_erase (hkj ▸ hmem)⟩
    · refine ⟨.inl hmem, fun hkj => ?_⟩
      exact Bool.false_ne_true ((h.kept j (hkj ▸ hmem)).2.symm.trans hlost)
  have hin : (t.pkts j).lost ≠ true → k ∈ t.retransmitQueue ∨ k ∈ t.inflightQueue.erase j →
      t.Queues k ∧ k ≠ j := by
    rintro hlost (hmem | hmem)
    · exact ⟨.inr hmem, fun hkj => hlost (h.lost j (hkj ▸ hmem)).2⟩
    · exact ⟨.inl (List.mem_of_mem_erase hmem), fun hkj => h.inflight.not_mem_erase (hkj ▸ hmem)⟩
  unfold removeAcked at hk
  dsimp only at hk
  split_ifs at hk with hsack hlost hlost
  · exact hre hlost hk.symm
  · exact hin hlost hk.symm
  · exact hre hlost hk.symm
  · exact hin hlost hk.symm

end Tx

/-- The loop of the RTO queues packets it finds in their slots. -/
theorem rtoLoop_queues (reoWnd m : ℕ) (seq : SeqNo) {k : ℕ} {s : Stream}
    (hk : (rtoLoop reoWnd m seq s).tx.Queues k) :
    s.tx.Queues k ∨ ∃ a, s.tx.outgoing a = some k ∧ (a - seq).toNat < m := by
  have hlook : ∀ {j : ℕ} {x : Stream}, (rtoLook reoWnd j x).tx.Queues k → x.tx.Queues k ∨ k = j := by
    intro j x hx
    unfold rtoLook rtoMarkLost at hx
    split at hx
    · rcases hx with hx | hx
      · exact .inl (.inl hx)
      · rcases List.mem_append.mp hx with hx | hx
        · exact .inl (.inr hx)
        · exact .inr (List.mem_singleton.mp hx)
    · split at hx
      · obtain ⟨hflight, -⟩ := unprobeIfProbe_flight j (x.withCc fun cc => { cc with lost := cc.lost + 1 })
        dsimp only at hx
        generalize unprobeIfProbe j (x.withCc fun cc => { cc with lost := cc.lost + 1 }) = y at hflight hx
        split at hx
        · exact .inl ((Tx.queues_congr hflight k).mp hx)
        · rcases hx with hx | hx
          · exact .inl ((Tx.queues_congr hflight k).mp (.inl (List.mem_of_mem_erase hx)))
          · rcases List.mem_append.mp hx with hx | hx
            · exact .inl ((Tx.queues_congr hflight k).mp (.inr hx))
            · exact .inr (List.mem_singleton.mp hx)
      · exact .inl hx
  have hslots : ∀ (j : ℕ) (x : Stream), (rtoLook reoWnd j x).tx.outgoing = x.tx.outgoing := by
    intro j x
    unfold rtoLook rtoKeepLost rtoMarkLost unprobeIfProbe
    dsimp only
    split_ifs <;> rfl
  induction m generalizing seq s with
  | zero => exact .inl hk
  | succ m ih =>
    unfold rtoLoop at hk
    split at hk
    · rcases ih _ hk with h | ⟨a, ha, hlt⟩
      · exact .inl h
      · exact .inr ⟨a, ha, by bv_omega⟩
    · next j hj =>
      rcases ih _ hk with h | ⟨a, ha, hlt⟩
      · rcases hlook h with h | rfl
        · exact .inl h
        · exact .inr ⟨seq, hj, by simp⟩
      · exact .inr ⟨a, hslots j s ▸ ha, by bv_omega⟩

theorem Resent.queues {j k : ℕ} {s t : Stream} (h : Resent j s t) (hk : t.tx.Queues k) :
    s.tx.Queues k ∨ k = j := by
  obtain ⟨p, -, -, -, htx | htx⟩ := h.tx
  · exact Tx.Queues.of_launch (htx ▸ hk)
  · rw [htx, Tx.queues_congr (Tx.flight_queueUv ..)] at hk
    exact Tx.Queues.of_launch hk

theorem Resent.outgoing {j : ℕ} {s t : Stream} (h : Resent j s t) :
    t.tx.outgoing = s.tx.outgoing := by
  obtain ⟨p, -, -, -, htx | htx⟩ := h.tx
  · rw [htx, Tx.launch_eq]
  · rw [htx]
    unfold Tx.queueUv Tx.setPkt
    rw [Tx.launch_eq]

/-- A new packet takes the slot of `seq` and joins those in flight. -/
theorem NewPacket.held {s t : Stream} (h : NewPacket s t) :
    t.tx.outgoing = Function.update s.tx.outgoing s.tx.seq (some s.tx.pkt) ∧
      ∀ k, t.tx.Queues k → s.tx.Queues k ∨ k = s.tx.pkt := by
  obtain ⟨p, z, -, -, -, hz, htx⟩ := h.tx
  have hz' : z.outgoing = Function.update s.tx.outgoing s.tx.seq (some s.tx.pkt) ∧
      ∀ k, z.Queues k → s.tx.Queues k ∨ k = s.tx.pkt := by
    have hlaunch : ∀ k, ((s.tx.occupy s.tx.seq s.tx.pkt).launch s.tx.pkt p).Queues k →
        (s.tx.occupy s.tx.seq s.tx.pkt).Queues k ∨ k = s.tx.pkt := fun k hk => hk.of_launch
    rcases hz with rfl | rfl
    · exact ⟨by rw [Tx.launch_eq]; rfl, hlaunch⟩
    · refine ⟨?_, fun k hk => hlaunch k ((Tx.queues_congr (Tx.flight_queueUv ..) k).mp hk)⟩
      unfold Tx.queueUv Tx.setPkt
      rw [Tx.launch_eq]
      rfl
  rw [htx]
  exact hz'

/-- What a step leaves queued has its slot where it had it before, and a new
packet has that of `seq`. -/
theorem Flights.held {s t : Stream} (h : Flights s t) (hq : Queued s.io.now s.tx.pkt s.tx)
    (hlive : t.st.dead = false) {low : SeqNo} {n : ℕ}
    (hs : s.tx.HeldFrom low (s.tx.seq - low).toNat) (hgrow : (s.tx.seq - low).toNat ≤ n)
    (hnew : NewPacket s t → (s.tx.seq - low).toNat < n)
    (hlow : s.ctl.cursor = none → low = s.tx.remoteAcked) : t.tx.HeldFrom low n := by
  have hmono := hs.mono hgrow
  cases h with
  | drop hf hout hkeep =>
    have hin : t.tx.inflightQueue = s.tx.inflightQueue := (congrArg Tx.inflightQueue hf :)
    have hre : t.tx.retransmitQueue = s.tx.retransmitQueue := (congrArg Tx.retransmitQueue hf :)
    exact hmono.of_sub (hkeep hlive) fun k hk => hk.imp (fun h => hin ▸ h) fun h => hre ▸ h
  | newPacket h =>
    obtain ⟨hout, hqueues⟩ := h.held
    intro k hk
    rw [hout]
    rcases hqueues k hk with hold | rfl
    · obtain ⟨a, ha, hlt⟩ := hs k hold
      have hne : a ≠ s.tx.seq := fun heq => Nat.lt_irrefl _ (heq ▸ hlt)
      exact ⟨a, (Function.update_of_ne hne ..).trans ha, Nat.lt_of_lt_of_le hlt hgrow⟩
    · exact ⟨s.tx.seq, Function.update_self .., hnew h⟩
  | resend k hk h =>
    refine hmono.of_sub h.outgoing fun j hj => ?_
    rcases h.queues hj with hold | rfl
    · exact hold
    · exact .inr hk
  | reprobe k hk h hout hcur =>
    intro j hj
    rw [h.outgoing]
    rcases h.queues hj with hold | rfl
    · exact hmono j (hold.imp_left List.mem_of_mem_erase)
    · -- the last packet that was numbered
      have hne := hlow hcur ▸ hout
      exact ⟨s.tx.seq - 1, (tlpCandidate_spec hk).1, by bv_omega⟩
  | lost k hk hf =>
    have hout : t.tx.outgoing = s.tx.outgoing := (congrArg Tx.outgoing hf :)
    refine hmono.of_sub hout fun j hj => ?_
    exact Tx.Queues.of_markLost (.inl hk) ((Tx.queues_congr hf j).mp hj)
  | scan _ hcur =>
    have htx : (rtoStart (clearTimer s)).tx = { s.tx with retransmitQueue := [] } :=
      (congrArg Core.tx (rtoStart_core (clearTimer s)) :)
    have hout : (rtoScan (clearTimer s)).tx.outgoing = s.tx.outgoing :=
      Tx.outgoing_of_load (rtoScan_loadKept (clearTimer s)).load
    intro k hk
    rw [hout]
    have hloop := rtoLoop_queues _ _ _ hk
    rw [htx] at hloop
    rcases hloop with (hin | hre) | ⟨a, ha, hlt⟩
    · exact hmono k (.inl hin)
    · cases hre
    · exact ⟨a, ha, Nat.lt_of_lt_of_le (hlow hcur ▸ hlt) hgrow⟩
  | clear hf =>
    have hout : t.tx.outgoing = s.tx.outgoing := (congrArg Tx.outgoing hf :)
    refine hmono.of_sub hout fun j hj => ?_
    rcases (Tx.queues_congr hf j).mp hj with hin | hre
    · exact .inl hin
    · cases hre
  | take a k sack hk hf =>
    have hout : t.tx.outgoing = Function.update s.tx.outgoing a none := by
      refine (congrArg Tx.outgoing hf :).trans ?_
      unfold Tx.removeAcked
      dsimp only
      split_ifs <;> rfl
    intro j hj
    obtain ⟨hold, hne⟩ := Tx.Queues.of_removeAcked hq ((Tx.queues_congr hf j).mp hj)
    obtain ⟨b, hb, hlt⟩ := hmono j hold
    have hba : b ≠ a := fun heq => hne (Option.some.inj (hb.symm.trans (heq ▸ hk)))
    exact ⟨b, by rw [hout]; exact (Function.update_of_ne hba ..).trans hb, hlt⟩

/-- What the numbers do to the packets that are out. -/
theorem Paced.slotted {s t : Stream} (h : Paced s t) (hf : Flights s t)
    (hq : Queued s.io.now s.tx.pkt s.tx) (hsound : s.pace.Sound) (hs : s.Slotted)
    (hlive : t.st.dead = false) : t.Slotted := by
  have hlow : s.ctl.cursor = none → s.pace.low = s.tx.remoteAcked := by
    intro hcur
    unfold Pace.low
    rw [show s.pace.cursor = none from hcur]
    rfl
  have hroom : (s.tx.seq - s.tx.remoteAcked).toNat < 2 ^ 31 := hsound.room
  -- the cursor is between `remote_acked` and `seq`
  have hbetween : (s.pace.low - s.tx.remoteAcked).toNat ≤ (s.tx.seq - s.tx.remoteAcked).toNat := by
    cases hcur : s.ctl.cursor with
    | none =>
      rw [hlow hcur, BitVec.sub_self]
      exact Nat.zero_le _
    | some c =>
      have hl : s.pace.low = c := by
        unfold Pace.low
        rw [show s.pace.cursor = some c from hcur]
        rfl
      obtain ⟨p, hp⟩ := Option.isSome_iff_exists.mp (hsound.reading (congrArg Option.isSome hcur))
      obtain ⟨hproc, hprior⟩ := hsound.counting p hp (congrArg Option.isSome hcur)
      rw [hl]
      rcases hsound.passed p c hp hcur with rfl | ⟨hadv, hle⟩
      · rw [show s.pace.remoteAcked = s.tx.remoteAcked from rfl, BitVec.sub_self]
        exact Nat.zero_le _
      · have hwithin := hsound.within p hp hproc hprior
        rw [if_pos hadv] at hwithin
        exact Nat.le_trans hle hwithin
  have hnumber : ∀ {n : SeqNo}, t.tx.seq = n → (NewPacket s t → n = s.tx.seq + 1) := fun hn hnew =>
    hn.symm.trans hnew.numbers.1
  have hkeep : t.tx.seq = s.tx.seq → t.tx.HeldFrom s.pace.low (t.tx.seq - s.pace.low).toNat := by
    intro hseq
    refine hf.held hq hlive hs (Nat.le_of_eq (by rw [hseq])) (fun hnew => ?_) hlow
    have := hnew.numbers.1
    rw [hseq] at this
    bv_omega
  have hseq : ∀ {c : Pace}, t.pace = c → t.tx.seq = c.seq := fun h => (congrArg Pace.seq h :)
  have hsame : ∀ {c : Pace}, t.pace = c → c.seq = s.tx.seq → c.low = s.pace.low → t.Slotted := by
    intro c h hc hl
    unfold Stream.Slotted
    rw [h, hl]
    exact hkeep ((hseq h).trans hc)
  cases h with
  | same h => exact hsame h rfl rfl
  | dead h => exact absurd (hlive.symm.trans h) Bool.false_ne_true
  | finish hcur h =>
    refine hsame h rfl ?_
    rw [hlow hcur]
    rfl
  | packet p hprior hadv hproc hcur h => exact hsame h rfl rfl
  | number n hfwd hn h =>
    unfold Stream.Slotted
    rw [h]
    have hseq' : t.tx.seq = n := hseq h
    refine hf.held hq hlive hs ?_ (fun hnew => ?_) hlow
    · rw [hseq']
      show (s.tx.seq - s.pace.low).toNat ≤ (n - s.pace.low).toNat
      bv_omega
    · have hnext := hnumber hseq' hnew
      rw [hseq']
      show (s.tx.seq - s.pace.low).toNat < (n - s.pace.low).toNat
      bv_omega
  | enter x hx hcur hout h => exact hsame h rfl rfl
  | window p hp hack h => exact hsame h rfl rfl
  | ackInit p hp hcur hproc hprior hne ht h =>
    refine hsame h rfl ?_
    rw [hlow hcur]
    exact hprior
  | count p c hp hc hlt hnone h =>
    have hl : s.pace.low = c := by
      unfold Pace.low
      rw [show s.pace.cursor = some c from hc]
      rfl
    have hheld := hkeep (hseq h)
    have hlow' : t.pace.low = c + 1 := by
      rw [h]
      rfl
    unfold Stream.Slotted
    rw [hlow']
    rw [hl] at hheld
    intro k hk
    obtain ⟨a, ha, hlt'⟩ := hheld k hk
    have hne : a ≠ c := by
      rintro rfl
      cases hnone.symm.trans ha
    exact ⟨a, ha, by bv_omega⟩
  | advance p c hp hc hend h =>
    rcases hend with hend | ⟨hin, hre⟩
    · -- the cursor has come to the ack
      refine hsame h rfl ?_
      obtain ⟨hproc, hprior⟩ := hsound.counting p hp (congrArg Option.isSome hc)
      have hwithin := hsound.within p hp hproc hprior
      have hpassed := hsound.passed p c hp hc
      unfold Core.pace at hwithin hpassed
      dsimp only at hwithin hpassed
      show (if p.ackAdvanced then p.h.ack else s.tx.remoteAcked) = s.pace.low
      unfold Pace.low
      rw [show s.pace.cursor = some c from hc]
      show (if p.ackAdvanced then p.h.ack else s.tx.remoteAcked) = c
      rw [seqCompare_lt] at hend
      split
      · next hadv =>
        rw [if_pos hadv] at hwithin
        rcases hpassed with rfl | ⟨-, hle⟩ <;> bv_omega
      · next hadv =>
        rcases hpassed with rfl | ⟨hadv', -⟩
        · rfl
        · exact absurd hadv' hadv
    · rintro k (hk | hk)
      · rw [hin] at hk
        cases hk
      · rw [hre] at hk
        cases hk
  | processed hcur h => exact hsame h rfl rfl

/-! ### The steps -/

/-- What leaves an episode behind: an ack that stops at its start, a
retransmission timeout that finds nothing outstanding, and a relayed datagram
that moves `seq` too far ahead. -/
def Entry.strandsEpisode : Entry → Bool
  | .reached (.episode ack) pre => pre.cc.caState != .opened && ack == pre.cc.highSeq
  | .failed .rtoOutstanding => true
  | .reached (.relay seq) pre => decide (2 ^ 31 ≤ (seq - pre.tx.remoteAcked).toNat)
  | _ => false

/-- No episode was left behind, and fewer than `2^31` numbers were ever in
use. -/
structure Punctual (s : Stream) : Prop where
  span : s.tx.span < 2 ^ 31
  log : ∀ e ∈ s.log, e.strandsEpisode = false

namespace Punctual

variable {s t : Stream}

theorem before (h : Punctual t) (hl : ∀ e ∈ s.log, e ∈ t.log) (hm : s.tx.Marks t.tx) :
    Punctual s :=
  ⟨Nat.lt_of_le_of_lt hm.span h.span, fun e he => h.log e (hl e he)⟩

variable (h : Punctual s)
include h

theorem episode {ack : SeqNo} {pre : Core} (hm : .reached (.episode ack) pre ∈ s.log)
    (hca : pre.cc.caState ≠ .opened) : ack ≠ pre.cc.highSeq := by
  simpa [Entry.strandsEpisode, hca] using h.log _ hm

theorem timeout : .failed .rtoOutstanding ∉ s.log := fun hm => Bool.true_eq_false.mp (h.log _ hm)

theorem relay {seq : SeqNo} {pre : Core} (hm : .reached (.relay seq) pre ∈ s.log) :
    (seq - pre.tx.remoteAcked).toNat < 2 ^ 31 := by
  simpa [Entry.strandsEpisode] using h.log _ hm

end Punctual

theorem Core.pace_of {c d : Core} (hra : d.tx.remoteAcked = c.tx.remoteAcked) (hctl : d.ctl = c.ctl)
    (hca : d.cc.caState = c.cc.caState) (hhigh : d.cc.highSeq = c.cc.highSeq) :
    d.pace = { c.pace with seq := d.tx.seq } := by
  unfold Core.pace
  rw [hra, hctl, hca, hhigh]

theorem Core.pace_of_episode {c d : Core} (hra : d.tx.remoteAcked = c.tx.remoteAcked)
    (hctl : d.ctl = c.ctl) (hcc : d.cc.episode = c.cc.episode) :
    d.pace = { c.pace with seq := d.tx.seq } :=
  Core.pace_of hra hctl (congrArg (fun x => x.2.1) hcc) (congrArg (fun x => x.2.2) hcc)

theorem Paced.of_core {s t : Stream} (h : t.toCore = s.toCore) : Paced s t := .same (congrArg Core.pace h)

theorem Calm.paced {s t : Stream} (h : Calm s t) : Paced s t := by
  refine .same ?_
  unfold Core.pace
  rw [h.tx, h.packet, h.processing, h.cursor, h.caState, h.highSeq]

theorem Resent.paced {k : ℕ} {s t : Stream} (h : Resent k s t) : Paced s t := by
  obtain ⟨hseq, hra⟩ := h.numbers
  refine .same ((Core.pace_of_episode hra h.ctl h.cc).trans ?_)
  rw [hseq]
  rfl

theorem SendMove.paced {s t : Stream} (h : SendMove s t) (hs : s.st.dead = false → s.Slotted)
    (hspan : t.tx.span < 2 ^ 31) : Paced s t := by
  cases h with
  | aside h => exact ((Calm.refl s).aside h).paced
  | enter => exact .of_core (Stream.check_core ..)
  | tlpEnter => exact .of_core (Stream.check_core ..)
  | slice b =>
    obtain ⟨f, w, c, h, n, hcore⟩ := fillSlice_core b s
    exact .same (congrArg Core.pace hcore :)
  | newPacket h =>
    obtain ⟨hseq, hra, hsp, -⟩ := h.numbers
    have hle : (s.tx.seq - s.tx.remoteAcked).toNat + 1 < 2 ^ 31 := by omega
    refine .number (s.tx.seq + 1) (by bv_omega) (by bv_omega) ?_
    rw [← hseq]
    exact Core.pace_of_episode hra h.ctl h.cc
  | resend k rest hk h => exact h.paced
  | reprobe k hk h =>
    have hunlink : (s.withTx fun tx => tx.unlinkInflight k).pace = s.pace := rfl
    obtain ⟨hseq, hra⟩ := h.numbers
    refine .same ((Core.pace_of_episode hra h.ctl h.cc).trans ?_)
    rw [hseq, hunlink]
    rfl
  | lost k =>
    unfold unprobeIfProbe
    split <;> exact .same rfl
  | rearm fromNow =>
    unfold rearmRto rearmSavedRto
    split_ifs
    · exact .same rfl
    · exact .same rfl
    · have hcore := Stream.check_core .rearmPending
        (s.tm.pendingTimer = .rackReo ∨ s.tm.pendingTimer = .tlp) s
      exact .same (congrArg Core.pace hcore :)
  | fullAck =>
    have hcore := Stream.check_core .fullAckQueues
      (s.tx.inflightQueue.length = 0 ∧ s.tx.retransmitQueue.length = 0) s
    unfold timerFullAck startKeepalive
    dsimp only
    split_ifs <;> exact .same (congrArg Core.pace hcore :)
  | recover h hcur hout =>
    by_cases hdead : s.st.dead = true
    · exact .dead ((congrArg (fun c => c.st.dead) h.core :).trans hdead)
    -- a packet that is out has its slot from `remote_acked` on
    have hslot := hs (Bool.eq_false_iff.mpr hdead)
    have hqueue : ∃ k, s.tx.Queues k := by
      cases hin : s.tx.inflightQueue with
      | cons k rest => exact ⟨k, .inl (by simp [hin])⟩
      | nil =>
        cases hre : s.tx.retransmitQueue with
        | cons k rest => exact ⟨k, .inr (by simp [hre])⟩
        | nil => simp [Tx.outstanding, hin, hre] at hout
    obtain ⟨k, hk⟩ := hqueue
    obtain ⟨a, -, hlt⟩ := hslot k hk
    have hlow : s.pace.low = s.tx.remoteAcked := by
      unfold Pace.low
      rw [show s.pace.cursor = none from hcur]
      rfl
    rw [hlow] at hlt
    refine .enter .recovery (by simp) hcur (by bv_omega) ?_
    have htx : t.tx = s.tx := (congrArg Core.tx h.core :)
    have hctl : t.ctl = s.ctl := (congrArg Core.ctl h.core :)
    unfold Core.pace
    rw [htx, hctl, show t.cc.caState = .recovery from (congrArg (fun x => x.2.1) h.episode :),
      show t.cc.highSeq = s.tx.seq from (congrArg (fun x => x.2.2) h.episode :)]
  | shift | prepare | lossTimer | reoTimer | deadline => exact .same rfl

/-- The RTO starts an episode, and notes where nothing is outstanding. -/
theorem rtoStart_paced (s : Stream) :
    (rtoStart s).pace = { s.pace with caState := .loss, highSeq := s.tx.seq } ∧
      (s.tx.remoteAcked = s.tx.seq → .failed .rtoOutstanding ∈ (rtoStart s).log) := by
  have hback : ∀ x : Stream, (rtoBackOff x).cc = x.cc ∧ ∃ l, (rtoBackOff x).log = l ++ x.log := by
    intro x
    unfold rtoBackOff Stream.check
    dsimp only
    split
    · exact ⟨rfl, [], rfl⟩
    · exact ⟨rfl, [_], rfl⟩
  have hloss : ∀ x : Stream, (rtoBackOff (rtoEnterLoss x)).cc.caState = .loss ∧
      (rtoBackOff (rtoEnterLoss x)).cc.highSeq = x.tx.seq := by
    intro x
    rw [(hback (rtoEnterLoss x)).1]
    exact ⟨rfl, rfl⟩
  have hcore := rtoStart_core s
  have hconn : ((s.withTm fun tm => { tm with pendingTimer := .none }).check .rtoConnected
      (s.st.connected = true)).tx = s.tx := Stream.check_tx ..
  obtain ⟨x, hx, htx, hmem⟩ : ∃ x : Stream,
      rtoStart s = (rtoBackOff (rtoEnterLoss x)).withTx (fun tx => { tx with retransmitQueue := [] }) ∧
      x.tx = s.tx ∧ (s.tx.remoteAcked = s.tx.seq → .failed .rtoOutstanding ∈ x.log) := by
    have hfail : ∀ y : Stream, y.tx = s.tx → s.tx.remoteAcked = s.tx.seq →
        .failed .rtoOutstanding ∈ (y.check .rtoOutstanding (y.tx.remoteAcked ≠ y.tx.seq)).log := by
      intro y hy hall
      unfold Stream.check
      rw [hy, if_neg (not_not_intro hall)]
      exact List.mem_cons_self
    exact ⟨_, rfl, (Stream.check_tx ..).trans hconn, hfail _ hconn⟩
  rw [hx] at hcore ⊢
  constructor
  · have hpace : ((rtoBackOff (rtoEnterLoss x)).withTx fun tx => { tx with retransmitQueue := [] }).pace =
        { s.pace with
          caState := (rtoBackOff (rtoEnterLoss x)).cc.caState
          highSeq := (rtoBackOff (rtoEnterLoss x)).cc.highSeq } :=
      congrArg Core.pace hcore
    rw [hpace, (hloss x).1, (hloss x).2, htx]
  · intro hall
    obtain ⟨l, hl⟩ := (hback (rtoEnterLoss x)).2
    obtain ⟨l', hl', -⟩ := (Aside.refl x).bbrSaveCwnd.log
    show _ ∈ (rtoBackOff (rtoEnterLoss x)).log
    rw [hl, show (rtoEnterLoss x).log = l' ++ x.log from hl']
    exact List.mem_append_right _ (List.mem_append_right _ (hmem hall))

theorem rtoScan_paced {s : Stream} (hcur : s.ctl.cursor = none)
    (hp : Punctual (rtoScan (clearTimer s))) : Paced s (rtoScan (clearTimer s)) := by
  obtain ⟨hstart, hfailed⟩ := rtoStart_paced (clearTimer s)
  have hloop : ∀ (reoWnd n : ℕ) (seq : SeqNo) (x : Stream), (rtoLoop reoWnd n seq x).pace = x.pace := by
    intro reoWnd n
    induction n with
    | zero => exact fun _ _ => rfl
    | succ n ih =>
      intro seq x
      unfold rtoLoop
      split
      · exact ih ..
      · refine (ih ..).trans ?_
        unfold rtoLook rtoKeepLost rtoMarkLost unprobeIfProbe
        dsimp only
        split_ifs <;> rfl
  refine .enter .loss (by simp) hcur (fun hall => hp.timeout ?_) ?_
  · unfold rtoScan
    dsimp only
    obtain ⟨l, hl, -⟩ := (rtoLoop_sends (rackUpdateReoWnd (rtoStart (clearTimer s)))
      ((rtoStart (clearTimer s)).tx.seq - (rtoStart (clearTimer s)).tx.remoteAcked).toNat
      (rtoStart (clearTimer s)).tx.remoteAcked (.refl (rtoStart (clearTimer s)))).log
    rw [hl]
    exact List.mem_append_right _ (hfailed hall.symm)
  · unfold rtoScan
    exact (hloop ..).trans hstart

section

variable (env : Env)

theorem sendProbe_pace (s : Stream) : (sendProbe env s).pace = s.pace :=
  (congrArg Core.pace (sendProbe_core env s) :)

theorem Stream.check_pace (a : Site) (p : Prop) [Decidable p] (s : Stream) :
    (s.check a p).pace = s.pace := congrArg Core.pace (Stream.check_core a p s)

theorem announce_pace (on : Bool) (c : Callback) (s : Stream) : (s.announce on c).pace = s.pace := by
  unfold Stream.announce
  split <;> rfl

theorem udxZwpTimeout_pace (s : Stream) : (udxZwpTimeout env s).pace = s.pace := by
  have hcheck : ∀ {x : Stream} (a : Site) (p : Prop) [Decidable p], x.pace = s.pace →
      (x.check a p).pace = s.pace := fun a p _ hx => (Stream.check_pace a p _).trans hx
  have hcount : ∀ {x : Stream}, x.pace = s.pace →
      (x.withTm fun tm => { tm with zwpCount := (tm.zwpCount + 1) % 2 ^ 16 }).pace = s.pace := fun hx => hx
  have hprobe : ∀ {x : Stream}, x.pace = s.pace → (sendProbe env x).pace = s.pace := fun hx =>
    (sendProbe_pace env _).trans hx
  have hstart : ∀ {x : Stream} (ms : ℕ), x.pace = s.pace → (streamTimerStart .zwp ms x).pace = s.pace :=
    fun _ hx => hx
  unfold udxZwpTimeout
  exact hstart _ (hcheck _ _ (hcheck _ _ (hprobe (hcount (hcheck _ _ (hcheck _ _ (hcheck _ _ rfl)))))))

theorem countBytes_pace (b bytes : ℕ) (cancelled : Bool) (s : Stream) :
    (countBytes b bytes cancelled s).pace = s.pace :=
  (congrArg Core.pace (countBytes_core b bytes cancelled s) :)

theorem ackBytes_pace (c : Chunk) (rest : List Chunk) (s : Stream) : (ackBytes c rest s).pace = s.pace :=
  (congrArg Core.pace (ackBytes_core c rest s) :)

theorem ackTake_pace (a : SeqNo) (k : ℕ) (sack : Bool) (s : Stream) :
    (ackTake a k sack s).pace = s.pace := by
  have hrate : ∀ (p : Packet) (x : Stream), (udxRatePktDelivered p x).pace = x.pace := by
    intro p x
    unfold udxRatePktDelivered
    split_ifs <;> rfl
  have hrack : ∀ (p : Packet) (x : Stream), (rackAcked p a x).pace = x.pace := by
    intro p x
    have hreorder : ∀ (r : Bool) (n : SeqNo) (y : Stream), (rackDetectReordering r n y).pace = y.pace := by
      intro r n y
      unfold rackDetectReordering Core.pace Stream.withCc
      dsimp only
      split_ifs <;> rfl
    have hupdate : ∀ (rtt : ℕ) (n : SeqNo) (y : Stream), (rackUpdate p rtt n y).pace = y.pace := by
      intro rtt n y
      unfold rackUpdate Core.pace Stream.withCtl Stream.withCc
      dsimp only
      split_ifs <;> rfl
    have hsample : ∀ (r : Bool) (rtt : ℕ) (y : Stream), (sampleRtt r rtt y).pace = y.pace := by
      intro r rtt y
      have hsrtt : ∀ cc : Cc, (updateSrtt rtt cc).caState = cc.caState ∧
          (updateSrtt rtt cc).highSeq = cc.highSeq := by
        intro cc
        unfold updateSrtt
        split_ifs <;> exact ⟨rfl, rfl⟩
      unfold sampleRtt
      split
      · rfl
      · unfold updateRtt updateRto Core.pace Stream.withCc
        dsimp only
        rw [(hsrtt _).1, (hsrtt _).2]
    unfold rackAcked
    dsimp only
    rw [hreorder, hupdate, hsample]
  have hremoved : ∀ t : Tx, (t.removeAcked a k sack).seq = t.seq ∧
      (t.removeAcked a k sack).remoteAcked = t.remoteAcked := fun t => removeAcked_numbers t a k sack
  have hcore := Stream.check_core .cirbufNull (s.tx.outgoingLive = true) s
  unfold ackTake
  generalize s.check .cirbufNull (s.tx.outgoingLive = true) = x at hcore
  have hx : x.pace = s.pace := congrArg Core.pace hcore
  unfold takeAcked
  dsimp only
  rw [hrack, hrate, ← hx]
  unfold Core.pace
  show Pace.mk (x.tx.removeAcked a k sack).seq (x.tx.removeAcked a k sack).remoteAcked _ _ _ _ _ = _
  rw [(hremoved x.tx).1, (hremoved x.tx).2]
  rfl

theorem ackTake_vacates (a : SeqNo) (k : ℕ) (sack : Bool) (s : Stream) :
    (ackTake a k sack s).tx.outgoing a = none := by
  have hflight := (ackTake_flight a k sack s).1
  have hout : (ackTake a k sack s).tx.outgoing = (s.tx.removeAcked a k sack).outgoing :=
    (congrArg Tx.outgoing hflight :)
  rw [hout]
  unfold Tx.removeAcked
  dsimp only
  split_ifs <;> exact Function.update_self ..

/-- An ack that moves `high_seq` behind ends the episode. -/
theorem ackInit_pace (p : RxPacket) (s : Stream) : (ackInit p s).pace = { s.pace with
    cursor := some p.priorRemoteAcked
    caState := if seqCompare p.h.ack s.cc.highSeq > 0 then .opened else s.cc.caState } ∧
    ∃ pre, .reached (.episode p.h.ack) pre ∈ (ackInit p s).log ∧
      pre.cc.caState = s.cc.caState ∧ pre.cc.highSeq = s.cc.highSeq := by
  have hdetect : (detectLossRepairedByLossProbe p.h.ack s).pace = s.pace := by
    unfold detectLossRepairedByLossProbe Core.pace Stream.withCc
    dsimp only
    split_ifs <;> rfl
  unfold ackInit
  generalize detectLossRepairedByLossProbe p.h.ack s = x at hdetect
  have hca : x.cc.caState = s.cc.caState := (congrArg Pace.caState hdetect :)
  have hhigh : x.cc.highSeq = s.cc.highSeq := (congrArg Pace.highSeq hdetect :)
  refine ⟨?_, x.toCore, List.mem_cons_self, hca, hhigh⟩
  have hleave : (leaveRecovery p.h.ack x).cc.caState =
      (if seqCompare p.h.ack x.cc.highSeq > 0 then .opened else x.cc.caState) ∧
      (leaveRecovery p.h.ack x).cc.highSeq = x.cc.highSeq := by
    unfold leaveRecovery Stream.withCc
    dsimp only [Stream.note]
    by_cases hgt : seqCompare p.h.ack x.cc.highSeq > 0
    · rw [if_pos hgt]
      cases hc : x.cc.caState <;> simp [hgt, hc]
    · simp [hgt]
  have hpace : (startAcks p (leaveRecovery p.h.ack x)).pace = { x.pace with
      cursor := some p.priorRemoteAcked
      caState := (leaveRecovery p.h.ack x).cc.caState
      highSeq := (leaveRecovery p.h.ack x).cc.highSeq } := rfl
  rw [hpace, hleave.1, hleave.2, hca, hhigh, hdetect]
  rfl

theorem Atom.paced {s t : Stream} (h : Atom env s t) (hs : s.st.dead = false → s.Slotted)
    (hu : Punctual t) : Paced s t := by
  cases h with
  | calm h => exact h.paced
  | send h => exact h.paced hs hu.span
  | found | begin | relayTo | clearRelayTo | capacity | setEnding | cancelSeq | cancelDone | clearTimer
  | clearPacing | tick | ackDrop => exact .same rfl
  | finish _ hcur => exact .finish hcur rfl
  | packet p _ hprior hadv hr hdead hproc hcur => exact .packet p hprior hadv hproc hcur rfl
  | setKeepalive ms =>
    unfold udxStreamSetKeepalive
    dsimp only
    split <;> exact .same rfl
  | changePath socket id addr cb =>
    obtain ⟨hcore, -⟩ :=
      changePath_spec socket id addr cb (s.note (.call (.changeRemote socket id addr cb) s.toCore))
    exact .same (congrArg Core.pace hcore :)
  | queueWrite bufs onAck isEnd =>
    have hqueue : (s.withTx fun tx => tx.queueWrite bufs onAck isEnd).pace = s.pace := by
      have hnum := congrArg (fun t => (t.seq, t.remoteAcked)) (queueWrite_unqueued bufs onAck isEnd s.tx)
      have hseq : (s.tx.queueWrite bufs onAck isEnd).seq = s.tx.seq := (congrArg Prod.fst hnum :)
      have hra : (s.tx.queueWrite bufs onAck isEnd).remoteAcked = s.tx.remoteAcked :=
        (congrArg Prod.snd hnum :)
      unfold Core.pace Stream.withTx
      dsimp only
      rw [hseq, hra]
    unfold Udx.queueWrite probeWindow
    dsimp only
    split
    · exact .same ((sendProbe_pace env _).trans hqueue)
    · exact .same hqueue
  | bind socket id addr =>
    have hset : ∀ x : Stream, (setRemoteAddr (some socket) addr x).1.pace = x.pace := by
      intro x
      rw [setRemoteAddr_core]
      rfl
    unfold connectBind
    dsimp only
    split <;> exact .same (hset _)
  | keepalive =>
    unfold connectKeepalive
    dsimp only
    split <;> exact .same rfl
  | destroy =>
    refine .dead ?_
    rcases destroyStart_core env s with ⟨-, heq⟩ | ⟨-, hcore, -⟩
    · rw [heq]
      simp [Status.dead, (closeStart_packing env .none (setDestroying s)).2.2.2]
    · simp [Status.dead, show (destroyStart env s).st.destroying = true from
        (congrArg (fun c => c.st.destroying) hcore :)]
  | close err => exact .dead (by simp [Status.dead, (closeStart_packing env err s).2.2.2])
  | cancelPkt => exact .same (Stream.check_pace .packetHeld ((s.tx.pkts s.tx.pkt).refCount = 1) s)
  | cancelChunk c rest => exact .same ((announce_pace ..).trans (countBytes_pace ..))
  | cancelQueued b rest => exact .same ((announce_pace ..).trans (countBytes_pace ..))
  | release =>
    unfold releaseHandles udxStreamReadStop
    split <;> exact .same rfl
  | keepaliveTimeout =>
    exact .same ((sendProbe_pace env _).trans (Stream.check_pace .keepaliveIdle _ (Udx.clearTimer s)))
  | zwpTimeout =>
    exact .same (udxZwpTimeout_pace env (Udx.clearTimer s))
  | rtoScan due _ ht hcur => exact rtoScan_paced hcur hu
  | giveUp =>
    unfold rtoGiveUp closeUnlessDestroying
    dsimp only
    split
    · next hdestroying => exact .dead (by simp [Status.dead, hdestroying])
    · exact .dead (by simp [Status.dead, (closeStart_packing env _ _).2.2.2])
  | uvSent i =>
    unfold Udx.uvSent
    split
    · exact .same rfl
    · split <;> exact .same rfl
  | uvDone i =>
    unfold Udx.uvDone
    split <;> exact .same rfl
  | copySent i =>
    unfold Udx.copySent
    split
    · exact .same rfl
    · split <;> exact .same rfl
  | relay seq _ hr hdead hp =>
    have hmem : .reached (.relay seq) s.toCore ∈ (relaySeq seq s).log := List.mem_cons_self
    have hroom := hu.relay hmem
    by_cases hmove : seqCompare s.tx.seq seq < 0
    · refine .number seq ?_ hroom ?_
      · rw [seqCompare_lt] at hmove
        bv_omega
      · show Pace.mk (if seqCompare s.tx.seq seq < 0 then seq else s.tx.seq) _ _ _ _ _ _ = _
        rw [if_pos hmove]
        rfl
    · refine .same ?_
      show Pace.mk (if seqCompare s.tx.seq seq < 0 then seq else s.tx.seq) _ _ _ _ _ _ = _
      rw [if_neg hmove]
      rfl
  | window p _ hp hdead hack =>
    unfold updateSendWindow stopZwp
    split_ifs <;> exact .window p hp hack rfl
  | remoteChanged => exact .same (announce_pace ..)
  | ackInit p _ hp hdead hproc hprior hcur =>
    obtain ⟨hpace, pre, hmem, hca, hhigh⟩ := ackInit_pace p s
    refine .ackInit p hp hcur hproc hprior (fun hopen => ?_) rfl hpace
    rw [← hhigh]
    exact hu.episode hmem (hca ▸ hopen)
  | ackAbsent p c _ hp hdead hc hlt hk =>
    have hcore := Stream.check_core .cirbufNull (s.tx.outgoingLive = true) (setCursor (some (c + 1)) s)
    refine .count p c hp hc hlt ?_ (congrArg Core.pace hcore :)
    unfold Udx.ackAbsent ackMissing
    show (Stream.check _ _ _).tx.outgoing c = none
    rw [Stream.check_tx]
    exact hk
  | ackTake p c k _ hp hdead hc hlt hk =>
    exact .count p c hp hc hlt (ackTake_vacates ..) (ackTake_pace ..)
  | sackTake c k => exact .same (ackTake_pace ..)
  | sackDead c k x rest => exact .same ((ackBytes_pace ..).trans (ackTake_pace ..))
  | sackAbsent => exact .same (Stream.check_pace .cirbufNull (s.tx.outgoingLive = true) s)
  | chunk c rest => exact .same (ackBytes_pace ..)
  | complete b sack => exact .same (announce_pace ..)
  | ackDone k =>
    unfold Udx.ackDone ackEnd
    split <;> exact .same rfl
  | advance p _ hp hend hidle =>
    obtain ⟨c, hc, hend⟩ := hend
    have hadv : (advanceRemoteAcked p s).pace = { s.pace with
        cursor := none, remoteAcked := if p.ackAdvanced then p.h.ack else s.tx.remoteAcked } ∧
        (advanceRemoteAcked p s).tx.inflightQueue = s.tx.inflightQueue ∧
        (advanceRemoteAcked p s).tx.retransmitQueue = s.tx.retransmitQueue ∧
        (advanceRemoteAcked p s).st = s.st := by
      unfold advanceRemoteAcked
      dsimp only
      split <;> exact ⟨rfl, rfl, rfl, rfl⟩
    obtain ⟨hpace, hin, hre, hst⟩ := hadv
    rcases hend with hend | ⟨-, hin', hre'⟩ | hdead
    · exact .advance p c hp hc (.inl hend) hpace
    · exact .advance p c hp hc (.inr ⟨hin.trans hin', hre.trans hre'⟩) hpace
    · exact .dead (hst ▸ hdead)
  | processed _ hcur => exact .processed hcur rfl
  | timerEnded =>
    unfold Udx.timerEnded startKeepalive
    split_ifs <;> exact .same rfl

end

/-! ### Every run -/

/-- A dead stream stays dead. -/
theorem Loads.live {s t : Stream} (h : Loads s t) (hlive : t.st.dead = false) : s.st.dead = false := by
  cases h with
  | same h => exact h.dead ▸ hlive
  | close _ _ _ hclosed => simp [Status.dead, hclosed] at hlive
  | destroy _ _ _ _ _ _ hdead => exact absurd (hlive.symm.trans hdead) Bool.false_ne_true
  | newPacket h => exact (congrArg (fun c => c.st.dead) h.core :) ▸ hlive
  | queueWrite _ _ _ _ h => exact h.dead ▸ hlive
  | take _ _ _ h => exact h.dead ▸ hlive
  | takeDead _ _ _ _ _ _ _ h => exact h.dead ▸ hlive
  | count _ _ _ h => exact h.dead ▸ hlive
  | slice b rest _ hq hcap =>
    have hst := (SendMove.slice b rest s hq hcap).outside.1
    exact (congrArg Status.dead hst).symm.trans hlive
  | finish | capacity | shift | prepare => exact hlive

/-- What holds of a live stream whose episodes all ended in time. -/
structure Timely (s : Stream) : Prop where
  sound : s.pace.Sound
  slotted : s.Slotted

theorem Atom.timely {env : Env} {s t : Stream} (h : Atom env s t)
    (hq : Queued s.io.now s.tx.pkt s.tx) (hs : Punctual s → s.st.dead = false → Timely s)
    (hu : Punctual t) (hlive : t.st.dead = false) : Timely t := by
  obtain ⟨hsound, hslot⟩ := hs (hu.before (fun _ => h.mem_log env) (h.marks env)) (h.loads.live hlive)
  have hpaced := h.paced env (fun _ => hslot) hu
  exact ⟨hpaced.sound hsound hlive, hpaced.slotted h.flights hq hsound hslot hlive⟩

theorem Reach.timely {env : Env} {cfg : Config} {s : Stream} (h : Reach env cfg s) :
    Punctual s → s.st.dead = false → Timely s := by
  have hopened : (Udx.init env cfg).cc.caState = .opened := rfl
  have hsound : (Udx.init env cfg).pace.Sound := by constructor <;> simp [Core.pace, hopened]
  have hslot : (Udx.init env cfg).Slotted := by simp [Stream.Slotted, Tx.HeldFrom, Tx.Queues]
  have hall := h.atoms (I := fun s => Queued s.io.now s.tx.pkt s.tx ∧
    (Punctual s → s.st.dead = false → Timely s)) ⟨Reach.init.queued, fun _ _ => ⟨hsound, hslot⟩⟩
    fun ha hs => ⟨ha.flights.queued hs.1, ha.timely hs.1 hs.2⟩
  exact hall.2

theorem AtomPath.timely {env : Env} {s t : Stream} (h : AtomPath env s t)
    (hq : Queued s.io.now s.tx.pkt s.tx) (hs : Punctual s → s.st.dead = false → Timely s) :
    Punctual t → t.st.dead = false → Timely t := by
  have hall := h.preserves (I := fun s => Queued s.io.now s.tx.pkt s.tx ∧
    (Punctual s → s.st.dead = false → Timely s))
    (fun ha hs => ⟨ha.flights.queued hs.1, ha.timely hs.1 hs.2⟩) ⟨hq, hs⟩
  exact hall.2

/-- What a step may do to an episode: one starts at `seq` with something
outstanding, or goes on, and it ends with the first datagram whose ack is not
before `high_seq`. -/
structure EpisodeStep (s t : Stream) : Prop where
  starts : t.cc.caState ≠ .opened → t.cc.highSeq = s.cc.highSeq ∧ s.cc.caState ≠ .opened ∨
    t.cc.highSeq = t.tx.seq ∧ t.tx.seq ≠ t.tx.remoteAcked
  lasts : s.cc.caState ≠ .opened → t.cc.caState = .opened →
    ∃ p, s.ctl.packet = some p ∧ t = ackInit p s ∧ seqDiff p.h.ack s.cc.highSeq ≥ 0
  ends : ∀ p, t = ackInit p s → seqDiff p.h.ack s.cc.highSeq ≥ 0 → t.cc.caState = .opened

theorem Paced.episode {s t : Stream} (h : Paced s t) (hlive : t.st.dead = false)
    (hu : Punctual t) : EpisodeStep s t := by
  have hends : ∀ p, t = Udx.ackInit p s → seqDiff p.h.ack s.cc.highSeq ≥ 0 → t.cc.caState = .opened := by
    rintro p rfl hge
    obtain ⟨hpace, pre, hmem, hca, hhigh⟩ := ackInit_pace p s
    have hstate : (Udx.ackInit p s).cc.caState =
        if seqCompare p.h.ack s.cc.highSeq > 0 then .opened else s.cc.caState :=
      (congrArg Pace.caState hpace :)
    rw [hstate]
    split
    · rfl
    · next hngt =>
      by_contra hopen
      have hne := hu.episode hmem (hca ▸ hopen)
      rw [hhigh] at hne
      rw [seqCompare_gt] at hngt
      rw [seqDiff_nonneg] at hge
      bv_omega
  have hkeep : ∀ {c : Pace}, t.pace = c → c.caState = s.cc.caState → c.highSeq = s.cc.highSeq →
      EpisodeStep s t := by
    intro c h hca hhigh
    have hca' : t.cc.caState = s.cc.caState := (congrArg Pace.caState h :).trans hca
    have hhigh' : t.cc.highSeq = s.cc.highSeq := (congrArg Pace.highSeq h :).trans hhigh
    exact ⟨fun hopen => .inl ⟨hhigh', hca' ▸ hopen⟩, fun hopen ht => absurd (hca'.symm.trans ht) hopen,
      hends⟩
  cases h with
  | dead h => exact absurd (hlive.symm.trans h) Bool.false_ne_true
  | enter x hx hcur hout h =>
    have hca : t.cc.caState = x := (congrArg Pace.caState h :)
    have hhigh : t.cc.highSeq = s.tx.seq := (congrArg Pace.highSeq h :)
    have hseq : t.tx.seq = s.tx.seq := (congrArg Pace.seq h :)
    have hra : t.tx.remoteAcked = s.tx.remoteAcked := (congrArg Pace.remoteAcked h :)
    refine ⟨fun _ => .inr ⟨hhigh.trans hseq.symm, ?_⟩, fun _ ht => absurd (hca.symm.trans ht) hx, hends⟩
    rw [hseq, hra]
    exact hout
  | ackInit p hp hcur hproc hprior hne ht h =>
    have hca : t.cc.caState =
        if seqCompare p.h.ack s.cc.highSeq > 0 then .opened else s.cc.caState :=
      (congrArg Pace.caState h :)
    have hhigh : t.cc.highSeq = s.cc.highSeq := (congrArg Pace.highSeq h :)
    refine ⟨fun hopen => .inl ⟨hhigh, fun hs => hopen ?_⟩, fun hopen hto => ⟨p, hp, ht, ?_⟩, hends⟩
    · rw [hca, hs]
      split <;> rfl
    · by_contra hlt
      rw [hca, if_neg fun hgt => hlt (Int.le_of_lt (seqCompare_pos.mp hgt))] at hto
      exact hopen hto
  | same h | finish _ h | packet _ _ _ _ _ h | number _ _ _ h | window _ _ _ h | count _ _ _ _ _ _ h
  | advance _ _ _ _ _ h | processed _ h => exact hkeep h rfl rfl

/-- Where no ack stops at `high_seq`, an episode of a live stream has something
from before its start outstanding, and ends with the first ack that covers all
of that. -/
theorem Reach.episodes {env : Env} {cfg : Config} {s₀ s : Stream} (h : Reach env cfg s₀)
    (hpath : AtomPath env s₀ s) (hu : Punctual s) (hlive : s.st.dead = false) :
    (s.cc.caState ≠ .opened → seqDiff s.cc.highSeq s.tx.remoteAcked > 0 ∧
      seqDiff s.tx.seq s.cc.highSeq ≥ 0) ∧
    ∀ t, Atom env s t → Punctual t → t.st.dead = false → EpisodeStep s t := by
  obtain ⟨hsound, hslot⟩ := hpath.timely h.queued h.timely hu hlive
  refine ⟨fun hopen => ?_, fun t ha ht hlive' => ?_⟩
  · obtain ⟨hpos, hle⟩ := hsound.episode hopen
    have hroom := hsound.room
    rw [seqDiff_pos, seqDiff_nonneg]
    unfold Core.pace at hpos hle hroom
    dsimp only at hpos hle hroom
    exact ⟨⟨hpos, by omega⟩, by bv_omega⟩
  · exact (ha.paced env (fun _ => hslot) ht).episode hlive' ht

/-- A packet that the retransmission timeout finds unacknowledged. -/
def timeoutEvents : List Event :=
  [.call (.connect ⟨0, .inet⟩ 2 ⟨.inet, 1, [1, 2, 3, 4]⟩), .call (.write [[7]] false), .prepare,
    .tick 2000, .timer, .tick 2000, .timer]

theorem Reach.episodes_timeout :
    let s := Udx.runEvents .free timeoutEvents (Udx.init .free numberedConfig)
    s.cc.caState = .loss ∧ seqDiff s.cc.highSeq s.tx.remoteAcked > 0 :=
  ⟨by decide +kernel, ((Reach.episodes (.runEvents .init timeoutEvents) (.refl _)
    ⟨by decide +kernel, by decide +kernel⟩ (by decide +kernel)).1 (by decide +kernel)).1⟩

/-- The ack of that packet leaves the stream in the episode, with nothing
outstanding. -/
theorem Reach.episodes_full : ∃ s, Reach .free numberedConfig s ∧ s.st.dead = false ∧
    s.cc.caState = .loss ∧ s.tx.seq = s.tx.remoteAcked ∧ s.cc.highSeq = s.tx.remoteAcked :=
  ⟨_, .runEvents .init (timeoutEvents ++ [.recv (ackDatagramOf 1 65535) true]), by decide +kernel,
    by decide +kernel, by decide +kernel, by decide +kernel⟩

end Udx
