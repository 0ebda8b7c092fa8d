/-
# RACK loss detection

The loop of `rack_detect_loss` stops at the first packet that was sent after
the one RACK goes by. The inflight queue is sorted by the time of sending, so
that what it finds lost, and what it waits for, is told by the packet alone.

Key definitions: `Stream.rackBefore`, `Stream.rackLost`, `Stream.rackWaits`.
Key theorem: `Reach.rackExact`.
-/
import Udx.Queues

namespace Udx

open Serial

/-- Packet `k` was sent before the one RACK goes by. -/
def Stream.rackBefore (s : Stream) (k : ℕ) : Bool :=
  rackSentAfter s.cc.rackTimeSent s.cc.rackNextSeq (s.tx.pkts k).timeSent ((s.tx.pkts k).seq + 1)

/-- When packet `k` is overdue. -/
def Stream.rackDue (s : Stream) (reoWnd k : ℕ) : ℕ := (s.tx.pkts k).timeSent + s.cc.rackRtt + reoWnd

/-- Packet `k` is lost. -/
def Stream.rackLost (s : Stream) (reoWnd k : ℕ) : Bool :=
  decide ((s.tx.pkts k).refCount ≠ 2) && s.rackBefore k && decide (s.rackDue reoWnd k ≤ s.io.now)

/-- Packet `k` is not lost yet, and libuv does not hold it. -/
def Stream.rackWaits (s : Stream) (reoWnd k : ℕ) : Bool :=
  decide ((s.tx.pkts k).refCount ≠ 2) && s.rackBefore k && !decide (s.rackDue reoWnd k ≤ s.io.now)

/-- The most that is left for a packet of a list. -/
def Stream.rackLeft (s : Stream) (reoWnd : ℕ) (ks : List ℕ) : ℕ :=
  (ks.map fun k => s.rackDue reoWnd k - s.io.now).foldl max 0

/-! ### The loop -/

/-- What RACK goes by. -/
structure RackSame (s t : Stream) : Prop where
  timeSent : ∀ k, (t.tx.pkts k).timeSent = (s.tx.pkts k).timeSent
  seq : ∀ k, (t.tx.pkts k).seq = (s.tx.pkts k).seq
  refCount : ∀ k, (t.tx.pkts k).refCount = (s.tx.pkts k).refCount
  rackTimeSent : t.cc.rackTimeSent = s.cc.rackTimeSent
  rackNextSeq : t.cc.rackNextSeq = s.cc.rackNextSeq
  rackRtt : t.cc.rackRtt = s.cc.rackRtt
  now : t.io.now = s.io.now

namespace RackSame

variable {s t u : Stream}

theorem refl (s : Stream) : RackSame s s :=
  ⟨fun _ => rfl, fun _ => rfl, fun _ => rfl, rfl, rfl, rfl, rfl⟩

theorem trans (h : RackSame s t) (h' : RackSame t u) : RackSame s u :=
  ⟨fun k => (h'.timeSent k).trans (h.timeSent k), fun k => (h'.seq k).trans (h.seq k),
    fun k => (h'.refCount k).trans (h.refCount k), h'.rackTimeSent.trans h.rackTimeSent,
    h'.rackNextSeq.trans h.rackNextSeq, h'.rackRtt.trans h.rackRtt, h'.now.trans h.now⟩

theorem of_core (h : t.toCore = s.toCore) : RackSame s t := by
  refine ⟨?_, ?_, ?_, ?_, ?_, ?_, ?_⟩ <;> rw [h] <;> exact fun _ => rfl

variable (h : RackSame s t) (reoWnd k : ℕ)
include h

theorem rackBefore : t.rackBefore k = s.rackBefore k := by
  unfold Stream.rackBefore
  rw [h.timeSent, h.seq, h.rackTimeSent, h.rackNextSeq]

theorem rackDue : t.rackDue reoWnd k = s.rackDue reoWnd k := by
  unfold Stream.rackDue
  rw [h.timeSent, h.rackRtt]

theorem rackLost : t.rackLost reoWnd k = s.rackLost reoWnd k := by
  unfold Stream.rackLost
  rw [h.refCount, h.rackBefore, h.rackDue, h.now]

theorem rackWaits : t.rackWaits reoWnd k = s.rackWaits reoWnd k := by
  unfold Stream.rackWaits
  rw [h.refCount, h.rackBefore, h.rackDue, h.now]

end RackSame

/-- What the loop over `queue` leaves of `t`, by the verdicts in `s`. -/
structure RackLooped (reoWnd : ℕ) (queue : List ℕ) (n : ℕ) (s t : Stream) (r : Stream × RackAcc) : Prop where
  inflight : r.1.tx.inflightQueue =
    t.tx.inflightQueue.filter fun k => !decide (k ∈ queue.filter (s.rackLost reoWnd))
  retransmit : r.1.tx.retransmitQueue = t.tx.retransmitQueue ++ queue.filter (s.rackLost reoWnd)
  lost : ∀ j, (r.1.tx.pkts j).lost = ((t.tx.pkts j).lost || decide (j ∈ queue.filter (s.rackLost reoWnd)))
  timeout : r.2.timeout = (((queue.filter (s.rackWaits reoWnd)).map fun k =>
    s.rackDue reoWnd k - s.io.now).foldl max n : ℕ)

namespace RackLooped

variable {reoWnd n k : ℕ} {queue : List ℕ} {s t u : Stream} {r : Stream × RackAcc}

theorem of_same (h : RackLooped reoWnd queue n t t r) (hs : RackSame s t) : RackLooped reoWnd queue n s t r := by
  obtain ⟨hin, hretr, hlost, htime⟩ := h
  have hl : queue.filter (t.rackLost reoWnd) = queue.filter (s.rackLost reoWnd) :=
    List.filter_congr fun j _ => hs.rackLost reoWnd j
  have hw : queue.filter (t.rackWaits reoWnd) = queue.filter (s.rackWaits reoWnd) :=
    List.filter_congr fun j _ => hs.rackWaits reoWnd j
  simp only [hl, hw, hs.rackDue, hs.now] at hin hretr hlost htime
  exact ⟨hin, hretr, hlost, htime⟩

theorem of_tx (h : RackLooped reoWnd queue n s t r) (htx : t.tx = u.tx) : RackLooped reoWnd queue n s u r := by
  obtain ⟨hin, hretr, hlost, htime⟩ := h
  rw [htx] at hin hretr hlost
  exact ⟨hin, hretr, hlost, htime⟩

/-- The packet before them is not lost, and nothing is waited for. -/
theorem skip (h : RackLooped reoWnd queue n s t r) (hl : s.rackLost reoWnd k = false)
    (hw : s.rackWaits reoWnd k = false) : RackLooped reoWnd (k :: queue) n s t r := by
  have hl' : (k :: queue).filter (s.rackLost reoWnd) = queue.filter (s.rackLost reoWnd) :=
    List.filter_cons_of_neg (by simp [hl])
  have hw' : (k :: queue).filter (s.rackWaits reoWnd) = queue.filter (s.rackWaits reoWnd) :=
    List.filter_cons_of_neg (by simp [hw])
  obtain ⟨hin, hretr, hlost, htime⟩ := h
  rw [← hl'] at hin hretr
  rw [← hw'] at htime
  exact ⟨hin, hretr, fun j => by rw [hl']; exact hlost j, htime⟩

/-- It may be lost yet. -/
theorem wait (h : RackLooped reoWnd queue (max n (s.rackDue reoWnd k - s.io.now)) s t r)
    (hl : s.rackLost reoWnd k = false) (hw : s.rackWaits reoWnd k = true) :
    RackLooped reoWnd (k :: queue) n s t r := by
  have hl' : (k :: queue).filter (s.rackLost reoWnd) = queue.filter (s.rackLost reoWnd) :=
    List.filter_cons_of_neg (by simp [hl])
  have hw' : (k :: queue).filter (s.rackWaits reoWnd) = k :: queue.filter (s.rackWaits reoWnd) :=
    List.filter_cons_of_pos hw
  obtain ⟨hin, hretr, hlost, htime⟩ := h
  rw [← hl'] at hin hretr
  exact ⟨hin, hretr, fun j => by rw [hl']; exact hlost j, by rw [hw']; exact htime⟩

/-- It is lost, and leaves the queue that holds it. -/
theorem mark (h : RackLooped reoWnd queue n s t r) (hl : s.rackLost reoWnd k = true)
    (hw : s.rackWaits reoWnd k = false) (hnodup : u.tx.inflightQueue.Nodup)
    (hinf : t.tx.inflightQueue = u.tx.inflightQueue.erase k)
    (hretr : t.tx.retransmitQueue = u.tx.retransmitQueue ++ [k])
    (hlost : ∀ j, (t.tx.pkts j).lost = ((u.tx.pkts j).lost || decide (j = k))) :
    RackLooped reoWnd (k :: queue) n s u r := by
  have hl' : (k :: queue).filter (s.rackLost reoWnd) = k :: queue.filter (s.rackLost reoWnd) :=
    List.filter_cons_of_pos hl
  have hw' : (k :: queue).filter (s.rackWaits reoWnd) = queue.filter (s.rackWaits reoWnd) :=
    List.filter_cons_of_neg (by simp [hw])
  refine ⟨?_, ?_, fun j => ?_, ?_⟩
  · rw [h.inflight, hinf, hnodup.erase_eq_filter, List.filter_filter, hl']
    apply List.filter_congr
    intro j _
    by_cases hj : j = k <;> simp [hj]
  · rw [h.retransmit, hretr, hl']
    simp
  · rw [h.lost, hlost, hl']
    by_cases hj : j = k <;> simp [hj]
  · rw [hw']
    exact h.timeout

/-- Nothing of the queue is lost or waited for. -/
theorem stop (hl : queue.filter (s.rackLost reoWnd) = []) (hw : queue.filter (s.rackWaits reoWnd) = [])
    (htx : r.1.tx = t.tx) (hn : r.2.timeout = n) : RackLooped reoWnd queue n s t r := by
  refine ⟨?_, ?_, fun j => ?_, ?_⟩
  · rw [hl, htx]
    exact (List.filter_eq_self.mpr fun _ _ => rfl).symm
  · rw [hl, htx, List.append_nil]
  · rw [hl, htx]
    simp
  · rw [hw]
    exact hn

end RackLooped

/-- A packet found lost leaves the inflight queue for the retransmit queue. -/
theorem rackMarkLost_spec (k : ℕ) (s : Stream) : RackSame s (rackMarkLost k s) ∧
    (rackMarkLost k s).tx.inflightQueue = s.tx.inflightQueue.erase k ∧
    (rackMarkLost k s).tx.retransmitQueue = s.tx.retransmitQueue ++ [k] ∧
    ∀ j, ((rackMarkLost k s).tx.pkts j).lost = ((s.tx.pkts j).lost || decide (j = k)) := by
  have hpkt : ∀ (x : Stream) (f : Packet → Packet) (j : ℕ),
      (∀ p, (f p).timeSent = p.timeSent ∧ (f p).seq = p.seq ∧ (f p).refCount = p.refCount) →
      ((x.tx.setPkt k f).pkts j).timeSent = (x.tx.pkts j).timeSent ∧
      ((x.tx.setPkt k f).pkts j).seq = (x.tx.pkts j).seq ∧
      ((x.tx.setPkt k f).pkts j).refCount = (x.tx.pkts j).refCount := by
    intro x f j hf
    by_cases hj : j = k
    · rw [hj, Tx.setPkt_self]
      exact hf _
    · rw [Tx.setPkt_of_ne hj]
      exact ⟨rfl, rfl, rfl⟩
  have hunprobe : ∀ x : Stream, RackSame x (unprobeIfProbe k x) ∧
      (unprobeIfProbe k x).tx.flight = x.tx.flight := by
    intro x
    refine ⟨?_, (unprobeIfProbe_flight k x).1⟩
    unfold unprobeIfProbe
    split
    · have h := fun j => hpkt x Packet.unprobeify j fun p => ⟨rfl, rfl, rfl⟩
      exact ⟨fun j => (h j).1, fun j => (h j).2.1, fun j => (h j).2.2, rfl, rfl, rfl, rfl⟩
    · exact .refl x
  obtain ⟨x, hcore, hx⟩ : ∃ x : Stream,
      x.toCore = { s.toCore with cc := { s.cc with lost := s.cc.lost + 1 } } ∧
      Udx.rackMarkLost k s = unprobeIfProbe k (x.withTx fun tx => tx.markLost k) :=
    ⟨_, Stream.check_core .., rfl⟩
  rw [hx]
  have htx : x.tx = s.tx := (congrArg Core.tx hcore :)
  have hsame : RackSame s x := by
    have hpkts : ∀ j, x.tx.pkts j = s.tx.pkts j := fun j => by rw [htx]
    exact ⟨fun j => by rw [hpkts], fun j => by rw [hpkts], fun j => by rw [hpkts],
      (congrArg (fun c => c.cc.rackTimeSent) hcore :), (congrArg (fun c => c.cc.rackNextSeq) hcore :),
      (congrArg (fun c => c.cc.rackRtt) hcore :), (congrArg (fun c => c.io.now) hcore :)⟩
  have hmark : RackSame x (x.withTx fun tx => tx.markLost k) := by
    have h := fun j => hpkt x (fun p => { p with lost := true }) j fun p => ⟨rfl, rfl, rfl⟩
    exact ⟨fun j => (h j).1, fun j => (h j).2.1, fun j => (h j).2.2, rfl, rfl, rfl, rfl⟩
  obtain ⟨hun, hflight⟩ := hunprobe (x.withTx fun tx => tx.markLost k)
  refine ⟨(hsame.trans hmark).trans hun, ?_, ?_, fun j => ?_⟩
  · refine (congrArg Tx.inflightQueue hflight :).trans ?_
    show x.tx.inflightQueue.erase k = _
    rw [htx]
  · refine (congrArg Tx.retransmitQueue hflight :).trans ?_
    show x.tx.retransmitQueue ++ [k] = _
    rw [htx]
  · refine (congrArg (fun u : Tx => (u.pkts j).lost) hflight :).trans ?_
    show ((x.tx.setPkt k fun p => { p with lost := true }).pkts j).lost = _
    by_cases hj : j = k
    · subst hj
      rw [Tx.setPkt_self]
      simp
    · rw [Tx.setPkt_of_ne hj, htx]
      simp [hj]

/-- What the verdict on a packet says. -/
theorem rackVerdict_spec (reoWnd k : ℕ) (s : Stream) :
    (s.cc.rackTimeSent < (s.tx.pkts k).timeSent ∧ rackVerdict reoWnd (s.tx.pkts k) s = .stop) ∨
    (s.rackLost reoWnd k = false ∧ s.rackWaits reoWnd k = false ∧
      rackVerdict reoWnd (s.tx.pkts k) s = .skip) ∨
    (s.rackLost reoWnd k = true ∧ s.rackWaits reoWnd k = false ∧
      rackVerdict reoWnd (s.tx.pkts k) s = .lost) ∨
    (s.rackLost reoWnd k = false ∧ s.rackWaits reoWnd k = true ∧
      rackVerdict reoWnd (s.tx.pkts k) s = .wait ((s.rackDue reoWnd k : ℤ) - s.io.now)) := by
  unfold rackVerdict Stream.rackLost Stream.rackWaits Stream.rackBefore Stream.rackDue
  dsimp only
  split_ifs with hlate hheld hbefore hdue
  · exact .inl ⟨hlate, rfl⟩
  · exact .inr (.inl (by simp [hheld]))
  · have hdue' : (s.tx.pkts k).timeSent + s.cc.rackRtt + reoWnd ≤ s.io.now := by omega
    rw [decide_eq_true hheld, hbefore, decide_eq_true hdue']
    exact .inr (.inr (.inl ⟨rfl, rfl, rfl⟩))
  · have hdue' : ¬ (s.tx.pkts k).timeSent + s.cc.rackRtt + reoWnd ≤ s.io.now := by omega
    rw [decide_eq_true hheld, hbefore, decide_eq_false hdue']
    exact .inr (.inr (.inr ⟨rfl, rfl, rfl⟩))
  · rw [Bool.eq_false_iff.mpr hbefore]
    exact .inr (.inl (by simp))

/-- A packet sent after the one RACK goes by was not sent before it. -/
theorem Stream.rackBefore_of_late {s : Stream} {k : ℕ}
    (h : s.cc.rackTimeSent < (s.tx.pkts k).timeSent) : s.rackBefore k = false := by
  unfold rackBefore rackSentAfter
  simp only [Bool.or_eq_false_iff, Bool.and_eq_false_iff, decide_eq_false_iff_not]
  exact ⟨by omega, .inl (by omega)⟩

/-- Nothing after such a packet of a sorted queue was sent before either. -/
theorem Stream.rack_none_of_late (reoWnd : ℕ) {s : Stream} {k : ℕ} {rest : List ℕ}
    (hlate : s.cc.rackTimeSent < (s.tx.pkts k).timeSent)
    (hfirst : ∀ j ∈ rest, (s.tx.pkts k).timeSent ≤ (s.tx.pkts j).timeSent) :
    (k :: rest).filter (s.rackLost reoWnd) = [] ∧ (k :: rest).filter (s.rackWaits reoWnd) = [] := by
  have hnone : ∀ j ∈ k :: rest, s.rackBefore j = false := by
    intro j hj
    apply Stream.rackBefore_of_late
    obtain rfl | hj := List.mem_cons.mp hj
    · exact hlate
    · exact Nat.lt_of_lt_of_le hlate (hfirst j hj)
  constructor
  all_goals
    apply List.filter_eq_nil_iff.mpr
    intro j hj
    simp [Stream.rackLost, Stream.rackWaits, hnone j hj]

/-- The loop over a part of the queue, by what the packets alone tell. -/
theorem rackLoop_spec (reoWnd : ℕ) {queue : List ℕ} (hnodup : queue.Nodup) (acc : RackAcc) (n : ℕ)
    (hn : acc.timeout = n) {s : Stream}
    (hsorted : queue.Pairwise fun j k => (s.tx.pkts j).timeSent ≤ (s.tx.pkts k).timeSent)
    (hin : s.tx.inflightQueue.Nodup) : RackLooped reoWnd queue n s s (rackLoop reoWnd queue acc s) := by
  induction queue generalizing acc n s with
  | nil => exact .stop rfl rfl rfl hn
  | cons k rest ih =>
    obtain ⟨hk, hrest⟩ := List.nodup_cons.mp hnodup
    obtain ⟨hfirst, hsorted'⟩ := List.pairwise_cons.mp hsorted
    have hcore := Stream.check_core .rackTransmits ((s.tx.pkts k).transmits > 0) s
    unfold rackLoop
    dsimp only
    generalize s.check .rackTransmits ((s.tx.pkts k).transmits > 0) = u at hcore ⊢
    have hsame : RackSame s u := .of_core hcore
    have htx : u.tx = s.tx := congrArg Core.tx hcore
    have hstep : ∀ (v : Stream) (acc' : RackAcc) (m : ℕ), RackSame s v → acc'.timeout = m →
        v.tx.inflightQueue.Nodup → RackLooped reoWnd rest m s v (rackLoop reoWnd rest acc' v) := by
      intro v acc' m hv hm hvin
      have hsorted := hsorted'.imp fun {a b} hab => by
        rwa [← hv.timeSent, ← hv.timeSent b] at hab
      exact (ih hrest acc' m hm hsorted hvin).of_same hv
    obtain ⟨hlate, hv⟩ | ⟨hl, hw, hv⟩ | ⟨hl, hw, hv⟩ | ⟨hl, hw, hv⟩ := rackVerdict_spec reoWnd k s
    all_goals
      have hv' : rackVerdict reoWnd (s.tx.pkts k) u = rackVerdict reoWnd (s.tx.pkts k) s := by
        unfold rackVerdict
        rw [hsame.rackTimeSent, hsame.rackNextSeq, hsame.rackRtt, hsame.now]
      rw [hv', hv]
      dsimp only
    · -- the queue is sorted, so that what is left was sent later still
      obtain ⟨hl, hw⟩ := Stream.rack_none_of_late reoWnd hlate hfirst
      exact .stop hl hw htx hn
    · exact ((hstep u acc n hsame hn (by rwa [htx])).of_tx htx).skip hl hw
    · obtain ⟨hmark, hinf, hretr, hlost⟩ := rackMarkLost_spec k u
      have hmarked := hstep (rackMarkLost k u) (acc.lost (s.tx.pkts k)) n (hsame.trans hmark) hn
        (by rw [hinf, htx]; exact hin.erase k)
      rw [htx] at hinf hretr hlost
      exact hmarked.mark hl hw hin hinf hretr hlost
    · have hleft : (acc.wait ((s.rackDue reoWnd k : ℤ) - s.io.now)).timeout =
          ((max n (s.rackDue reoWnd k - s.io.now) : ℕ) : ℤ) := by
        have hlt : s.io.now < s.rackDue reoWnd k := by
          simp only [Stream.rackWaits, Bool.and_eq_true, Bool.not_eq_true', decide_eq_false_iff_not] at hw
          omega
        unfold RackAcc.wait
        dsimp only
        rw [hn]
        omega
      exact ((hstep u _ _ hsame hleft (by rwa [htx])).of_tx htx).wait hl hw

theorem rackEnterRecovery_tx (acc : RackAcc) (s : Stream) : (rackEnterRecovery acc s).tx = s.tx := by
  unfold rackEnterRecovery rackForgiveProbes bbrSaveCwnd
  dsimp only
  split_ifs <;> rfl

/-- A round of RACK in a state of a run marks exactly the packets that are
overdue by themselves, before it sends anything, and waits as long as the last
one needs that libuv does not hold; it returns that time as 32 bits. -/
theorem Reach.rackExact {env : Env} {cfg : Config} {s₀ s : Stream} (h : Reach env cfg s₀)
    (hpath : AtomPath env s₀ s) :
    let reoWnd := rackUpdateReoWnd s
    let found := rackLoop reoWnd s.tx.inflightQueue {} s
    let r := rackEnterRecovery found.2 found.1
    let lost := s.tx.inflightQueue.filter (s.rackLost reoWnd)
    (Udx.rackDetectLoss env s).1 = sendPackets env r ∧
      (s.tx.inflightQueue.Pairwise fun j k => (s.tx.pkts j).timeSent ≤ (s.tx.pkts k).timeSent) ∧
      r.tx.inflightQueue = s.tx.inflightQueue.filter (fun k => !s.rackLost reoWnd k) ∧
      r.tx.retransmitQueue = s.tx.retransmitQueue ++ lost ∧
      (∀ j, (r.tx.pkts j).lost = ((s.tx.pkts j).lost || decide (j ∈ lost))) ∧
      (Udx.rackDetectLoss env s).2 =
        s.rackLeft reoWnd (s.tx.inflightQueue.filter (s.rackWaits reoWnd)) % 2 ^ 32 := by
  have hq := hpath.queued h.queued
  obtain ⟨hin, hretr, hlost, htime⟩ :=
    rackLoop_spec (rackUpdateReoWnd s) hq.inflight {} 0 rfl hq.sorted hq.inflight
  dsimp only
  rw [rackEnterRecovery_tx]
  refine ⟨rfl, hq.sorted, ?_, hretr, hlost, ?_⟩
  · refine hin.trans (List.filter_congr fun k hk => ?_)
    simp [List.mem_filter, hk]
  · unfold Udx.rackDetectLoss
    dsimp only
    rw [htime]
    rfl

def rackConfig : Config := { localId := 1, seq := 0, ack := 0, now := 0 }

/-- A write of one byte is sent. -/
def sendByte : List Event := [.call (.write [[7]] false), .prepare]

/-- An ack of the peer. -/
def rackAck (ack : SeqNo) : Event :=
  .recv ({ type := 0, dataOffset := 0, remoteId := 1, rwnd := 65535, seq := 0, ack := ack } : Header).encode true

/-- An ack of the peer with one SACK block. -/
def sackDatagram (ack start stop : SeqNo) : List UInt8 :=
  ({ type := UDX_HEADER_SACK, dataOffset := 0, remoteId := 1, rwnd := 65535, seq := 0, ack := ack } :
    Header).encode ++ writeSacks [(start, stop)]

/-- After a round trip of 100 milliseconds three packets are sent, 10
milliseconds apart; the last one is acknowledged first, and 10 milliseconds
later the first one is overdue. -/
def overdue : Stream :=
  runEvents .free ([.call (.connect ⟨0, .inet⟩ 2 ⟨.inet, 1, [1, 2, 3, 4]⟩)] ++ sendByte ++ [.tick 100, rackAck 1] ++
    sendByte ++ [.tick 10] ++ sendByte ++ [.tick 10] ++ sendByte ++
    [.tick 100, .recv (sackDatagram 1 3 4) true, .tick 10]) (Udx.init .free rackConfig)

theorem Reach.rackExact_overdue :
    let found := rackLoop (rackUpdateReoWnd overdue) overdue.tx.inflightQueue {} overdue
    let r := rackEnterRecovery found.2 found.1
    overdue.tx.inflightQueue = [1, 2] ∧ (Udx.rackDetectLoss .free overdue).1 = sendPackets .free r ∧
      r.tx.inflightQueue = [2] ∧ r.tx.retransmitQueue = [1] ∧ (r.tx.pkts 1).lost = true ∧
      (r.tx.pkts 2).lost = false ∧ (Udx.rackDetectLoss .free overdue).2 = 5 := by
  have h : Reach .free rackConfig overdue := .runEvents .init _
  obtain ⟨hsend, -, hin, hretr, hlost, hleft⟩ := Reach.rackExact h (.refl _)
  exact ⟨by decide +kernel, hsend, hin.trans (by decide +kernel), hretr.trans (by decide +kernel),
    (hlost 1).trans (by decide +kernel), (hlost 2).trans (by decide +kernel), hleft.trans (by decide +kernel)⟩

/-! ### A packet that libuv holds -/

/-- Datagram `n` has to wait in libuv. -/
def Env.busy (n : ℕ) : Env := { Env.free with trySend := fun i => if i = n then .again else .sent }

/-- The second packet goes out over another socket, and is acknowledged before
the first one leaves. -/
def rackEvents : List Event :=
  [.call (.connect ⟨0, .inet⟩ 2 ⟨.inet, 1, [1, 2, 3, 4]⟩)] ++ sendByte ++
    [.call (.changeRemote ⟨1, .inet⟩ 2 ⟨.inet, 1, [1, 2, 3, 4]⟩ false)] ++ sendByte ++
    [.tick 100, .recv (sackDatagram 0 1 2) true]

/-- Round trips, each as long as it may be without being clamped but the last. -/
def slowTrips : List ℕ :=
  [30000, 105000, 189375, 358125, 695625, 1370625, 2720625, 5420625, 10820625, 21620625, 43220625, 86420625,
    172820625, 345620625, 691220625, 1382420625, 2007000000]

/-- After them a packet waits in libuv for 4000000000 milliseconds. Two more
are sent, the second of which is acknowledged at once, and then the first
leaves; its ack comes when `rtt_min` has forgotten the fast one. -/
def slowEvents : List Event :=
  [.call (.connect ⟨0, .inet⟩ 2 ⟨.inet, 1, [1, 2, 3, 4]⟩)] ++
    (slowTrips.zipIdx.flatMap fun (ms, i) => sendByte ++ [.tick ms, rackAck (BitVec.ofNat 32 (i + 1))]) ++
    sendByte ++ [.tick 4000000000] ++ sendByte ++ sendByte ++
    [.recv (sackDatagram 17 19 20) true, .uvSent 0, .uvDone 0, .tick 300001, rackAck 18]

/-- RACK does not wait for a packet that libuv holds, which was sent before
the one RACK goes by and is not lost; and a time to wait of 2 ^ 32 milliseconds
or more is cut to 32 bits. -/
theorem Reach.rackExact_held : (∃ s, Reach (.busy 0) rackConfig s ∧
    (Udx.rackDetectLoss (.busy 0) s).2 = 0 ∧ s.rackLeft (rackUpdateReoWnd s)
      (s.tx.inflightQueue.filter fun k =>
        s.rackBefore k && !s.rackLost (rackUpdateReoWnd s) k) = 25) ∧
    ∃ s, Reach (.busy 34) rackConfig s ∧ (Udx.rackDetectLoss (.busy 34) s).2 = 66089280 ∧
      s.rackLeft (rackUpdateReoWnd s) (s.tx.inflightQueue.filter (s.rackWaits (rackUpdateReoWnd s))) =
        4361056576 :=
  ⟨⟨_, .runEvents .init rackEvents, by decide +kernel, by decide +kernel⟩,
    _, .runEvents .init slowEvents, by decide +kernel, by decide +kernel⟩

end Udx
