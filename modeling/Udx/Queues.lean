/-
# The packets that are out

What each step does to the packets that are out: to the slots of `outgoing`,
to the inflight queue and to the retransmit queue. A packet is in one queue at
most, the one its `lost` flag says, and the inflight queue is in the order in
which its packets were last sent.

Key definitions: `Tx.flight`, `Flights`, `Queued`.
Key theorems: `Atom.flights`, `Flights.queued`, `Flights.unacked`.
-/
import Udx.Loads

namespace Udx

open Serial

/-- What a packet that is out shows to the queues. -/
def Packet.flight (p : Packet) : Packet := { seq := p.seq, lost := p.lost, timeSent := p.timeSent }

/-- Slots and queues, and of the packets what the queues go by. -/
def Tx.flight (t : Tx) : Tx :=
  { outgoing := t.outgoing, inflightQueue := t.inflightQueue, retransmitQueue := t.retransmitQueue
    pkt := t.pkt, pkts := fun k => (t.pkts k).flight }

namespace Tx

variable (t : Tx) (k : ℕ)

theorem flight_setPkt {f : Packet → Packet} (h : (f (t.pkts k)).flight = (t.pkts k).flight) :
    (t.setPkt k f).flight = t.flight := by
  have hpkts : (fun j => ((t.setPkt k f).pkts j).flight) = fun j => (t.pkts j).flight := by
    funext j
    by_cases hj : j = k
    · rw [hj, setPkt_self, h]
    · rw [setPkt_of_ne hj]
  exact congrArg (fun p => { t.flight with pkts := p }) hpkts

theorem flight_queueUv (dest : Dest) : (t.queueUv k dest).flight = t.flight :=
  t.flight_setPkt k (f := fun p => { p with refCount := p.refCount + 1 }) rfl

theorem flight_derefPacket : (t.derefPacket k).flight = t.flight :=
  t.flight_setPkt k (f := fun p => { p with refCount := p.refCount - 1 }) rfl

end Tx

/-! ### The invariant -/

/-- Each packet that is out is in one queue at most, by its `lost` flag, and
the inflight queue is sorted by `timeSent`. -/
structure Queued (now n : ℕ) (t : Tx) : Prop where
  slot : ∀ a k, t.outgoing a = some k → (t.pkts k).seq = a ∧ k < n
  inflight : t.inflightQueue.Nodup
  retransmit : t.retransmitQueue.Nodup
  kept : ∀ k ∈ t.inflightQueue, k < n ∧ (t.pkts k).lost = false
  lost : ∀ k ∈ t.retransmitQueue, k < n ∧ (t.pkts k).lost = true
  sorted : t.inflightQueue.Pairwise fun j k => (t.pkts j).timeSent ≤ (t.pkts k).timeSent
  past : ∀ k ∈ t.inflightQueue, (t.pkts k).timeSent ≤ now

namespace Queued

variable {now n : ℕ} {t u : Tx} {k : ℕ}

theorem congr (h : Queued now n t) (hf : u.flight = t.flight) : Queued now n u := by
  have hout : u.outgoing = t.outgoing := (congrArg Tx.outgoing hf :)
  have hin : u.inflightQueue = t.inflightQueue := (congrArg Tx.inflightQueue hf :)
  have hre : u.retransmitQueue = t.retransmitQueue := (congrArg Tx.retransmitQueue hf :)
  have hpkts : ∀ k, (u.pkts k).flight = (t.pkts k).flight := fun k =>
    (congrArg (fun x : Tx => x.pkts k) hf :)
  have hseq : ∀ k, (u.pkts k).seq = (t.pkts k).seq := fun k => (congrArg Packet.seq (hpkts k) :)
  have hlost : ∀ k, (u.pkts k).lost = (t.pkts k).lost := fun k => (congrArg Packet.lost (hpkts k) :)
  have htime : ∀ k, (u.pkts k).timeSent = (t.pkts k).timeSent := fun k =>
    (congrArg Packet.timeSent (hpkts k) :)
  constructor
  · simpa only [hout, hseq] using h.slot
  · exact hin ▸ h.inflight
  · exact hre ▸ h.retransmit
  · simpa only [hin, hlost] using h.kept
  · simpa only [hre, hlost] using h.lost
  · simpa only [hin, htime] using h.sorted
  · simpa only [hin, htime] using h.past

theorem later {now' n' : ℕ} (h : Queued now n t) (hn : now ≤ now') (hn' : n ≤ n') :
    Queued now' n' t :=
  ⟨fun a k hk => ⟨(h.slot a k hk).1, Nat.lt_of_lt_of_le (h.slot a k hk).2 hn'⟩, h.inflight,
    h.retransmit, fun k hk => ⟨Nat.lt_of_lt_of_le (h.kept k hk).1 hn', (h.kept k hk).2⟩,
    fun k hk => ⟨Nat.lt_of_lt_of_le (h.lost k hk).1 hn', (h.lost k hk).2⟩, h.sorted,
    fun k hk => Nat.le_trans (h.past k hk) hn⟩

/-- Slots are given up. -/
theorem unacked_lt (h : Queued now n t) (hk : t.Unacked k) : k < n := by
  rcases hk with hk | hk | ⟨a, hk⟩
  · exact (h.kept k hk).1
  · exact (h.lost k hk).1
  · exact (h.slot a k hk).2

theorem drop (h : Queued now n t) (hf : { u.flight with outgoing := t.outgoing } = t.flight)
    (hout : ∀ a k, u.outgoing a = some k → t.outgoing a = some k) : Queued now n u := by
  have hmid : Queued now n { u with outgoing := t.outgoing } := h.congr hf
  exact ⟨fun a k hk => hmid.slot a k (hout a k hk), hmid.inflight, hmid.retransmit, hmid.kept,
    hmid.lost, hmid.sorted, hmid.past⟩

theorem unlink (h : Queued now n t) (k : ℕ) : Queued now n (t.unlinkInflight k) := by
  have hmem : ∀ j ∈ t.inflightQueue.erase k, j ∈ t.inflightQueue := fun j hj => List.mem_of_mem_erase hj
  exact ⟨h.slot, h.inflight.erase k, h.retransmit, fun j hj => h.kept j (hmem j hj), h.lost,
    h.sorted.sublist List.erase_sublist, fun j hj => h.past j (hmem j hj)⟩

theorem eraseLost (h : Queued now n t) (k : ℕ) :
    Queued now n { t with retransmitQueue := t.retransmitQueue.erase k } :=
  ⟨h.slot, h.inflight, h.retransmit.erase k, h.kept, fun j hj => h.lost j (List.mem_of_mem_erase hj),
    h.sorted, h.past⟩

/-- A packet is sent: it leaves the retransmit queue and is the last in flight. -/
theorem launch {p : Packet} (h : Queued now n t) (hk : k < n) (hin : k ∉ t.inflightQueue)
    (hre : k ∈ t.retransmitQueue → p.lost = true) (hseq : ∀ a, t.outgoing a = some k → p.seq = a)
    (htime : p.timeSent = now) : Queued now n (t.launch k p) := by
  have hself : (Function.update t.pkts k { p with lost := false }) k = { p with lost := false } :=
    Function.update_self ..
  have hother : ∀ {j}, j ≠ k → (Function.update t.pkts k { p with lost := false }) j = t.pkts j :=
    fun hj => Function.update_of_ne hj ..
  have hne : ∀ {j}, j ∈ t.inflightQueue → j ≠ k := fun hj hjk => hin (hjk ▸ hj)
  have hrest : ∀ j ∈ (if p.lost then t.retransmitQueue.erase k else t.retransmitQueue),
      j ∈ t.retransmitQueue ∧ j ≠ k := by
    intro j hj
    split at hj
    · exact ⟨List.mem_of_mem_erase hj, fun hjk => h.retransmit.not_mem_erase (hjk ▸ hj)⟩
    · next hl => exact ⟨hj, fun hjk => hl (hre (hjk ▸ hj))⟩
  rw [Tx.launch_eq]
  refine ⟨fun a j hj => ?_, ?_, ?_, fun j hj => ?_, fun j hj => ?_, ?_, fun j hj => ?_⟩
  · show ((Function.update t.pkts k { p with lost := false }) j).seq = a ∧ j < n
    by_cases hjk : j = k
    · subst hjk
      rw [hself]
      exact ⟨hseq a hj, hk⟩
    · rw [hother hjk]
      exact h.slot a j hj
  · exact List.nodup_append.mpr ⟨h.inflight, by simp, by simpa using fun j hj => hne hj⟩
  · show List.Nodup (if p.lost then _ else _)
    split
    · exact h.retransmit.erase k
    · exact h.retransmit
  · show j < n ∧ ((Function.update t.pkts k { p with lost := false }) j).lost = false
    rcases List.mem_append.mp hj with hj | hj
    · rw [hother (hne hj)]
      exact h.kept j hj
    · obtain rfl := List.mem_singleton.mp hj
      rw [hself]
      exact ⟨hk, rfl⟩
  · obtain ⟨hj, hjk⟩ := hrest j hj
    show j < n ∧ ((Function.update t.pkts k { p with lost := false }) j).lost = true
    rw [hother hjk]
    exact h.lost j hj
  · show List.Pairwise (fun i j => ((Function.update t.pkts k { p with lost := false }) i).timeSent ≤
      ((Function.update t.pkts k { p with lost := false }) j).timeSent) (t.inflightQueue ++ [k])
    refine List.pairwise_append.mpr ⟨?_, by simp, fun i hi j hj => ?_⟩
    · refine h.sorted.imp_of_mem fun hi hj hij => ?_
      rw [hother (hne hi), hother (hne hj)]
      exact hij
    · obtain rfl := List.mem_singleton.mp hj
      rw [hself, hother (hne hi), htime]
      exact h.past i hi
  · show ((Function.update t.pkts k { p with lost := false }) j).timeSent ≤ now
    rcases List.mem_append.mp hj with hj | hj
    · rw [hother (hne hj)]
      exact h.past j hj
    · obtain rfl := List.mem_singleton.mp hj
      exact Nat.le_of_eq (by rw [hself, ← htime])

/-- A packet is found lost: it goes to the retransmit queue. -/
theorem markLost (h : Queued now n t) (hk : k < n) (hre : k ∉ t.retransmitQueue) :
    Queued now n (t.markLost k) := by
  have hself : ((t.markLost k).pkts k) = { t.pkts k with lost := true } :=
    t.setPkt_self k fun p => { p with lost := true }
  have hother : ∀ {j}, j ≠ k → (t.markLost k).pkts j = t.pkts j := fun hj =>
    Tx.setPkt_of_ne hj t fun p => { p with lost := true }
  have hin : ∀ j ∈ t.inflightQueue.erase k, j ∈ t.inflightQueue ∧ j ≠ k := fun j hj =>
    ⟨List.mem_of_mem_erase hj, fun hjk => h.inflight.not_mem_erase (hjk ▸ hj)⟩
  refine ⟨fun a j hj => ?_, h.inflight.erase k, ?_, fun j hj => ?_, fun j hj => ?_, ?_, fun j hj => ?_⟩
  · by_cases hjk : j = k
    · subst hjk
      rw [hself]
      exact h.slot a j hj
    · rw [hother hjk]
      exact h.slot a j hj
  · refine List.nodup_append.mpr ⟨h.retransmit, by simp, fun j hj i hi hji => hre ?_⟩
    rw [← List.mem_singleton.mp hi, ← hji]
    exact hj
  · obtain ⟨hj, hjk⟩ := hin j hj
    rw [hother hjk]
    exact h.kept j hj
  · rcases List.mem_append.mp hj with hj | hj
    · rw [hother fun hjk => hre (hjk ▸ hj)]
      exact h.lost j hj
    · obtain rfl := List.mem_singleton.mp hj
      rw [hself]
      exact ⟨hk, rfl⟩
  · show (t.inflightQueue.erase k).Pairwise _
    refine (h.sorted.sublist List.erase_sublist).imp_of_mem fun hi hj hij => ?_
    rw [hother (hin _ hi).2, hother (hin _ hj).2]
    exact hij
  · obtain ⟨hj, hjk⟩ := hin j hj
    rw [hother hjk]
    exact h.past j hj

theorem removeAcked (h : Queued now n t) (a : SeqNo) (k : ℕ) (sack : Bool) :
    Queued now n (t.removeAcked a k sack) := by
  have hdrop : Queued now n (t.setOutgoing a none) := by
    refine h.drop rfl fun b j hj => ?_
    by_cases hb : b = a
    · have hnone : (t.setOutgoing a none).outgoing b = none := by
        rw [hb]
        exact Function.update_self ..
      rw [hnone] at hj
      cases hj
    · exact (Function.update_of_ne hb ..).symm.trans hj
  have hsack : Queued now n { t.setOutgoing a none with sacks := t.sacks + 1 } := hdrop.congr rfl
  unfold Tx.removeAcked
  dsimp only
  split_ifs
  · exact hsack.eraseLost k
  · exact hsack.unlink k
  · exact hdrop.eraseLost k
  · exact hdrop.unlink k

theorem occupy (h : Queued now n t) {a : SeqNo} (hk : k < n) (hseq : (t.pkts k).seq = a) :
    Queued now n (t.setOutgoing a (some k)) := by
  refine ⟨fun b j hj => ?_, h.inflight, h.retransmit, h.kept, h.lost, h.sorted, h.past⟩
  by_cases hb : b = a
  · have hself : (t.setOutgoing a (some k)).outgoing b = some k := by
      rw [hb]
      exact Function.update_self ..
    obtain rfl : k = j := Option.some.inj (hself.symm.trans hj)
    exact ⟨hb ▸ hseq, hk⟩
  · exact h.slot b j ((Function.update_of_ne hb ..).symm.trans hj)

/-- The packets that were not sent yet do not matter. -/
theorem reset (h : Queued now n t) (hout : u.outgoing = t.outgoing)
    (hin : u.inflightQueue = t.inflightQueue) (hre : u.retransmitQueue = t.retransmitQueue)
    (hpkts : ∀ k, k < n → u.pkts k = t.pkts k) : Queued now n u := by
  refine ⟨fun a k hk => ?_, hin ▸ h.inflight, hre ▸ h.retransmit, fun k hk => ?_, fun k hk => ?_, ?_,
    fun k hk => ?_⟩
  · obtain ⟨hseq, hlt⟩ := h.slot a k (hout ▸ hk)
    exact ⟨by rw [hpkts k hlt, hseq], hlt⟩
  · obtain ⟨hlt, hl⟩ := h.kept k (hin ▸ hk)
    exact ⟨hlt, by rw [hpkts k hlt, hl]⟩
  · obtain ⟨hlt, hl⟩ := h.lost k (hre ▸ hk)
    exact ⟨hlt, by rw [hpkts k hlt, hl]⟩
  · rw [hin]
    refine h.sorted.imp_of_mem fun hi hj hij => ?_
    rw [hpkts _ (h.kept _ hi).1, hpkts _ (h.kept _ hj).1]
    exact hij
  · have hk' : k ∈ t.inflightQueue := hin ▸ hk
    rw [hpkts k (h.kept k hk').1]
    exact h.past k hk'

end Queued

/-! ### The steps -/

/-- What the steps of the sender do to the packets that are out. -/
inductive Flights : Stream → Stream → Prop
  | drop {s t : Stream} (hf : { t.tx.flight with outgoing := s.tx.outgoing } = s.tx.flight)
    (hout : ∀ a k, t.tx.outgoing a = some k → s.tx.outgoing a = some k)
    (hkeep : t.st.dead = false → t.tx.outgoing = s.tx.outgoing)
    (hnow : s.io.now ≤ t.io.now) : Flights s t
  | newPacket {s t : Stream} (h : NewPacket s t) : Flights s t
  | resend (k : ℕ) {s t : Stream} (hk : k ∈ s.tx.retransmitQueue) (h : Resent k s t) : Flights s t
  | reprobe (k : ℕ) {s t : Stream} (hk : tlpCandidate s.tx = some k)
    (h : Resent k (s.withTx fun tx => tx.unlinkInflight k) t)
    (hout : s.tx.remoteAcked ≠ s.tx.seq) (hcur : s.ctl.cursor = none) : Flights s t
  | lost (k : ℕ) {s t : Stream} (hk : k ∈ s.tx.inflightQueue)
    (hf : t.tx.flight = (s.tx.markLost k).flight) (hnow : t.io.now = s.io.now) : Flights s t
  | scan (s : Stream) (hcur : s.ctl.cursor = none) : Flights s (rtoScan (clearTimer s))
  | clear {s t : Stream} (hf : t.tx.flight = { s.tx with retransmitQueue := [] }.flight)
    (hnow : t.io.now = s.io.now) : Flights s t
  | take (a : SeqNo) (k : ℕ) (sack : Bool) {s t : Stream} (hk : s.tx.outgoing a = some k)
    (hf : t.tx.flight = (s.tx.removeAcked a k sack).flight) (hnow : t.io.now = s.io.now) : Flights s t

namespace Flights

variable {s t : Stream}

theorem same (hf : t.tx.flight = s.tx.flight) (hnow : t.io.now = s.io.now) : Flights s t := by
  have hout : t.tx.outgoing = s.tx.outgoing := (congrArg Tx.outgoing hf :)
  refine .drop ?_ (fun a k hk => hout ▸ hk) (fun _ => hout) (Nat.le_of_eq hnow.symm)
  rw [hf]
  rfl

theorem of_core (h : t.toCore = s.toCore) : Flights s t :=
  .same (congrArg (fun c => c.tx.flight) h) (congrArg (fun c => c.io.now) h)

theorem of_eq (htx : t.tx = s.tx) (hio : t.io = s.io) : Flights s t :=
  .same (congrArg Tx.flight htx) (congrArg Io.now hio)

end Flights

theorem unprobeIfProbe_flight (k : ℕ) (s : Stream) :
    (unprobeIfProbe k s).tx.flight = s.tx.flight ∧ (unprobeIfProbe k s).io.now = s.io.now := by
  unfold unprobeIfProbe
  split
  · exact ⟨s.tx.flight_setPkt k (f := Packet.unprobeify) rfl, rfl⟩
  · exact ⟨rfl, rfl⟩

/-- The loop of the RTO: a packet that is lost, or found to be, goes to the
retransmit queue, which the loop finds empty. -/
theorem rtoLoop_queued (reoWnd : ℕ) {now n : ℕ} (base : SeqNo) : ∀ (m i : ℕ) (s : Stream),
    Queued now n s.tx → (∀ k ∈ s.tx.retransmitQueue, ((s.tx.pkts k).seq - base).toNat < i) →
    i + m < 2 ^ 32 → s.io.now = now →
    Queued now n (rtoLoop reoWnd m (nth base i) s).tx ∧
      (rtoLoop reoWnd m (nth base i) s).io.now = now := by
  intro m
  induction m with
  | zero => exact fun i s hs _ _ hnow => ⟨hs, hnow⟩
  | succ m ih =>
    intro i s hs hvisited hi hnow
    have hnext : nth base i + 1 = nth base (i + 1) := (nth_succ base i).symm
    have hback : (nth base i - base).toNat = i := by
      have h := toNat_sub_nth base (Nat.zero_le i) (by omega)
      rwa [nth_zero] at h
    unfold rtoLoop
    split
    · rw [hnext]
      exact ih (i + 1) s hs (fun k hk => Nat.lt_succ_of_lt (hvisited k hk)) (by omega) hnow
    · next k hk =>
      obtain ⟨hseq, hkn⟩ := hs.slot _ k hk
      have hfresh : k ∉ s.tx.retransmitQueue := by
        intro hmem
        have hlt := hvisited k hmem
        rw [hseq, hback] at hlt
        exact Nat.lt_irrefl i hlt
      have hadd : ∀ x : Stream, Queued now n x.tx → x.io.now = now →
          x.tx.retransmitQueue = s.tx.retransmitQueue ++ [k] →
          (∀ j, (x.tx.pkts j).seq = (s.tx.pkts j).seq) →
          Queued now n (rtoLoop reoWnd m (nth base i + 1) x).tx ∧
            (rtoLoop reoWnd m (nth base i + 1) x).io.now = now := by
        intro x hx hxnow hre hpkts
        rw [hnext]
        refine ih (i + 1) x hx (fun j hj => ?_) (by omega) hxnow
        rw [hre] at hj
        rw [hpkts]
        rcases List.mem_append.mp hj with hj | hj
        · exact Nat.lt_succ_of_lt (hvisited j hj)
        · obtain rfl := List.mem_singleton.mp hj
          rw [hseq, hback]
          exact Nat.lt_succ_self i
      have hsame : ∀ x : Stream, x.tx.flight = s.tx.flight → x.io.now = now →
          Queued now n (rtoLoop reoWnd m (nth base i + 1) x).tx ∧
            (rtoLoop reoWnd m (nth base i + 1) x).io.now = now := by
        intro x hx hxnow
        have hre : x.tx.retransmitQueue = s.tx.retransmitQueue := (congrArg Tx.retransmitQueue hx :)
        have hpkts : ∀ j, (x.tx.pkts j).seq = (s.tx.pkts j).seq := fun j =>
          (congrArg (fun u : Tx => (u.pkts j).seq) hx :)
        rw [hnext]
        refine ih (i + 1) x (hs.congr hx) (fun j hj => ?_) (by omega) hxnow
        rw [hpkts]
        exact Nat.lt_succ_of_lt (hvisited j (hre ▸ hj))
      unfold rtoLook
      split
      · next hlost =>
        refine hadd (rtoKeepLost k s) ⟨hs.slot, hs.inflight, ?_, hs.kept, fun j hj => ?_, hs.sorted,
          hs.past⟩ hnow rfl fun _ => rfl
        · refine List.nodup_append.mpr ⟨hs.retransmit, by simp, fun j hj i hi hji => hfresh ?_⟩
          rw [← List.mem_singleton.mp hi, ← hji]
          exact hj
        · rcases List.mem_append.mp hj with hj | hj
          · exact hs.lost j hj
          · obtain rfl := List.mem_singleton.mp hj
            exact ⟨hkn, hlost⟩
      · split
        · obtain ⟨hflight, hpnow⟩ := unprobeIfProbe_flight k (s.withCc fun cc => { cc with lost := cc.lost + 1 })
          unfold rtoMarkLost
          dsimp only
          generalize unprobeIfProbe k (s.withCc fun cc => { cc with lost := cc.lost + 1 }) = x at hflight hpnow ⊢
          have hpnow' : x.io.now = now := hpnow.trans hnow
          have hx : Queued now n x.tx := hs.congr hflight
          have hre : x.tx.retransmitQueue = s.tx.retransmitQueue := (congrArg Tx.retransmitQueue hflight :)
          have hpkts : ∀ j, (x.tx.pkts j).seq = (s.tx.pkts j).seq := fun j =>
            (congrArg (fun u : Tx => (u.pkts j).seq) hflight :)
          split
          · exact hsame x hflight hpnow'
          · refine hadd (x.withTx fun tx => tx.markLost k) (hx.markLost hkn (by rw [hre]; exact hfresh))
              hpnow' (congrArg (· ++ [k]) hre) fun j => ?_
            show ((x.tx.setPkt k fun p => { p with lost := true }).pkts j).seq = _
            by_cases hj : j = k
            · rw [hj, Tx.setPkt_self]
              exact hpkts k
            · rw [Tx.setPkt_of_ne hj]
              exact hpkts j
        · exact hsame s rfl hnow

theorem Flights.queued {s t : Stream} (h : Flights s t) (hs : Queued s.io.now s.tx.pkt s.tx) :
    Queued t.io.now t.tx.pkt t.tx := by
  have hresent : ∀ {k : ℕ} {x y : Stream}, Resent k x y → Queued x.io.now x.tx.pkt x.tx →
      k < x.tx.pkt → k ∉ x.tx.inflightQueue → Queued y.io.now y.tx.pkt y.tx := by
    intro k x y h hx hlt hin
    obtain ⟨p, rwnd, hp, htime, htx⟩ := h.tx
    have hnow : y.io.now = x.io.now := (congrArg (fun c => c.io.now) h.core :)
    have hlost : p.lost = (x.tx.pkts k).lost := (congrArg Packet.lost hp :)
    have hseq : p.seq = (x.tx.pkts k).seq := (congrArg Packet.seq hp :)
    have hlaunch : Queued x.io.now x.tx.pkt (x.tx.launch k p) :=
      hx.launch hlt hin (fun hre => hlost.trans (hx.lost k hre).2)
        (fun a ha => hseq.trans (hx.slot a k ha).1) htime
    have hpkt : y.tx.pkt = x.tx.pkt := by
      rcases htx with htx | htx
      · rw [htx, Tx.launch_eq]
      · rw [htx, Tx.launch_eq]
        rfl
    rw [hnow, hpkt]
    rcases htx with htx | htx <;> rw [htx]
    · exact hlaunch
    · exact hlaunch.congr (Tx.flight_queueUv ..)
  cases h with
  | drop hf hout hkeep hnow =>
    have hpkt : t.tx.pkt = s.tx.pkt := (congrArg Tx.pkt hf :)
    rw [hpkt]
    exact (hs.drop hf hout).later hnow (Nat.le_refl _)
  | newPacket h =>
    -- the packet is launched, then takes its slot, and an empty one follows it
    obtain ⟨p, z, hp, htime, -, hz, htx⟩ := h.tx
    have hnow : t.io.now = s.io.now := (congrArg (fun c => c.io.now) h.core :)
    have hlaunch : Queued s.io.now (s.tx.pkt + 1) (s.tx.launch s.tx.pkt p) := by
      refine (hs.later (Nat.le_refl _) (Nat.le_succ _)).launch (Nat.lt_succ_self _) ?_ ?_ ?_ htime
      · exact fun hin => Nat.lt_irrefl _ (hs.kept _ hin).1
      · exact fun hre => absurd (hs.lost _ hre).1 (Nat.lt_irrefl _)
      · exact fun a ha => absurd (hs.slot a _ ha).2 (Nat.lt_irrefl _)
    have hslot := hlaunch.occupy (a := s.tx.seq) (Nat.lt_succ_self _) (by
      rw [Tx.launch_self]
      exact hp.seq)
    have hflight : ((s.tx.occupy s.tx.seq s.tx.pkt).launch s.tx.pkt p).flight =
        ((s.tx.launch s.tx.pkt p).setOutgoing s.tx.seq (some s.tx.pkt)).flight := by
      rw [Tx.launch_eq, Tx.launch_eq]
      rfl
    have hzq : Queued s.io.now (s.tx.pkt + 1) z := by
      rcases hz with rfl | rfl
      · exact hslot.congr hflight
      · exact hslot.congr ((Tx.flight_queueUv ..).trans hflight)
    have hzpkt : z.pkt = s.tx.pkt := by
      rcases hz with rfl | rfl <;> rw [Tx.launch_eq] <;> rfl
    have htpkt : t.tx.pkt = s.tx.pkt + 1 := by
      rw [htx, ← hzpkt]
      rfl
    rw [hnow, htpkt]
    refine hzq.reset (by rw [htx]; rfl) (by rw [htx]; rfl) (by rw [htx]; rfl) fun k hk => ?_
    rw [htx]
    refine Tx.resetNextPacket_pkts_of_ne ?_
    show k ≠ z.pkt + 1
    omega
  | resend k hk h =>
    obtain ⟨hlt, hlost⟩ := hs.lost k hk
    refine hresent (x := s) h hs hlt ?_
    exact fun hin => Bool.false_ne_true ((hs.kept k hin).2.symm.trans hlost)
  | reprobe k hk h =>
    obtain ⟨hout, -, -⟩ := tlpCandidate_spec hk
    refine hresent h (hs.unlink k) (hs.slot _ k hout).2 ?_
    exact hs.inflight.not_mem_erase
  | lost k hk hf hnow =>
    have hpkt : t.tx.pkt = s.tx.pkt := (congrArg Tx.pkt hf :)
    obtain ⟨hlt, hlost⟩ := hs.kept k hk
    have hre : k ∉ s.tx.retransmitQueue := fun hre =>
      Bool.false_ne_true (hlost.symm.trans (hs.lost k hre).2)
    rw [hpkt, hnow]
    exact (hs.markLost hlt hre).congr hf
  | scan =>
    have hcore := rtoStart_core (clearTimer s)
    have htx : (rtoStart (clearTimer s)).tx = { s.tx with retransmitQueue := [] } :=
      (congrArg Core.tx hcore :)
    have hnow : (rtoStart (clearTimer s)).io.now = s.io.now := (congrArg (fun c => c.io.now) hcore :)
    have hempty : Queued s.io.now s.tx.pkt (rtoStart (clearTimer s)).tx := by
      rw [htx]
      exact ⟨hs.slot, hs.inflight, List.nodup_nil, hs.kept, by simp, hs.sorted, hs.past⟩
    have hpkt : (rtoScan (clearTimer s)).tx.pkt = s.tx.pkt := by
      have hload : (rtoScan (clearTimer s)).tx.load = s.tx.load := (rtoScan_loadKept (clearTimer s)).load
      exact (congrArg Tx.pkt hload :)
    rw [hpkt]
    unfold rtoScan
    dsimp only
    generalize rtoStart (clearTimer s) = x at htx hnow hempty ⊢
    obtain ⟨hloop, hloopNow⟩ := rtoLoop_queued (rackUpdateReoWnd x) x.tx.remoteAcked
      (x.tx.seq - x.tx.remoteAcked).toNat 0 x hempty (by simp [htx]) (by
        rw [Nat.zero_add]
        exact (x.tx.seq - x.tx.remoteAcked).isLt) hnow
    rw [nth_zero] at hloop hloopNow
    rw [hloopNow]
    exact hloop
  | clear hf hnow =>
    have hpkt : t.tx.pkt = s.tx.pkt := (congrArg Tx.pkt hf :)
    have hempty : Queued s.io.now s.tx.pkt { s.tx with retransmitQueue := [] } :=
      ⟨hs.slot, hs.inflight, List.nodup_nil, hs.kept, by simp, hs.sorted, hs.past⟩
    rw [hpkt, hnow]
    exact hempty.congr hf
  | take a k sack hk hf hnow =>
    have hpkt : t.tx.pkt = s.tx.pkt := by
      refine (congrArg Tx.pkt hf :).trans ?_
      unfold Tx.removeAcked
      dsimp only
      split_ifs <;> rfl
    rw [hpkt, hnow]
    exact (hs.removeAcked a k sack).congr hf

/-! ### What may be sent again -/

namespace Tx

variable {t u : Tx}

theorem unacked_congr (h : u.flight = t.flight) (k : ℕ) : u.Unacked k ↔ t.Unacked k := by
  have hout : u.outgoing = t.outgoing := (congrArg Tx.outgoing h :)
  have hin : u.inflightQueue = t.inflightQueue := (congrArg Tx.inflightQueue h :)
  have hre : u.retransmitQueue = t.retransmitQueue := (congrArg Tx.retransmitQueue h :)
  unfold Unacked
  rw [hout, hin, hre]

theorem Unacked.of_markLost {j k : ℕ} (hj : t.Unacked j) (h : (t.markLost j).Unacked k) : t.Unacked k := by
  rcases h with h | h | h
  · exact .inl (List.mem_of_mem_erase h)
  · rcases List.mem_append.mp h with h | h
    · exact .inr (.inl h)
    · exact List.mem_singleton.mp h ▸ hj
  · exact .inr (.inr h)

theorem Unacked.of_launch {j k : ℕ} {p : Packet} (hj : t.Unacked j) (h : (t.launch j p).Unacked k) :
    t.Unacked k := by
  rw [launch_eq] at h
  rcases h with h | h | h
  · rcases List.mem_append.mp h with h | h
    · exact .inl h
    · exact List.mem_singleton.mp h ▸ hj
  · refine .inr (.inl ?_)
    have hmem : k ∈ (if p.lost then t.retransmitQueue.erase j else t.retransmitQueue) := h
    split at hmem
    · exact List.mem_of_mem_erase hmem
    · exact hmem
  · exact .inr (.inr h)

end Tx

theorem Resent.unacked {j k : ℕ} {s t : Stream} (h : Resent j s t) (hj : s.tx.Unacked j)
    (hk : t.tx.Unacked k) : s.tx.Unacked k := by
  obtain ⟨p, -, -, -, htx | htx⟩ := h.tx
  · exact hj.of_launch (htx ▸ hk)
  · rw [htx, Tx.unacked_congr (Tx.flight_queueUv ..)] at hk
    exact hj.of_launch hk

theorem rtoLook_unacked (reoWnd : ℕ) {j k : ℕ} {s : Stream} (hj : s.tx.Unacked j)
    (hk : (rtoLook reoWnd j s).tx.Unacked k) : s.tx.Unacked k := by
  unfold rtoLook rtoMarkLost at hk
  split at hk
  · rcases hk with hk | hk | hk
    · exact .inl hk
    · rcases List.mem_append.mp hk with hk | hk
      · exact .inr (.inl hk)
      · exact List.mem_singleton.mp hk ▸ hj
    · exact .inr (.inr hk)
  · split at hk
    · obtain ⟨hflight, -⟩ := unprobeIfProbe_flight j (s.withCc fun cc => { cc with lost := cc.lost + 1 })
      dsimp only at hk
      generalize unprobeIfProbe j (s.withCc fun cc => { cc with lost := cc.lost + 1 }) = x at hflight hk
      have hx := Tx.unacked_congr hflight
      split at hk
      · exact (hx k).mp hk
      · exact (hx k).mp (((hx j).mpr hj).of_markLost hk)
    · exact hk

theorem rtoLoop_unacked (reoWnd m : ℕ) (seq : SeqNo) {k : ℕ} {s : Stream}
    (hk : (rtoLoop reoWnd m seq s).tx.Unacked k) : s.tx.Unacked k := by
  induction m generalizing seq s with
  | zero => exact hk
  | succ m ih =>
    unfold rtoLoop at hk
    split at hk
    · exact ih _ hk
    · next j hj => exact rtoLook_unacked reoWnd (.inr (.inr ⟨_, hj⟩)) (ih _ hk)

/-- Only the packet in construction joins those that may be sent again. -/
theorem Flights.unacked {s t : Stream} (h : Flights s t) {k : ℕ} (hk : t.tx.Unacked k) :
    s.tx.Unacked k ∨ k = s.tx.pkt ∧ NewPacket s t := by
  cases h with
  | drop hf hout =>
    have hin : t.tx.inflightQueue = s.tx.inflightQueue := (congrArg Tx.inflightQueue hf :)
    have hre : t.tx.retransmitQueue = s.tx.retransmitQueue := (congrArg Tx.retransmitQueue hf :)
    refine .inl ?_
    rcases hk with hk | hk | ⟨a, hk⟩
    · exact .inl (hin ▸ hk)
    · exact .inr (.inl (hre ▸ hk))
    · exact .inr (.inr ⟨a, hout a k hk⟩)
  | newPacket h =>
    by_cases hpkt : k = s.tx.pkt
    · exact .inr ⟨hpkt, h⟩
    obtain ⟨p, z, -, -, -, hz, htx⟩ := h.tx
    have hz' : z.Unacked k := by
      rw [htx] at hk
      exact hk
    have hlaunch : ((s.tx.occupy s.tx.seq s.tx.pkt).launch s.tx.pkt p).Unacked k := by
      rcases hz with rfl | rfl
      · exact hz'
      · exact (Tx.unacked_congr (Tx.flight_queueUv ..) k).mp hz'
    have hself : (s.tx.occupy s.tx.seq s.tx.pkt).Unacked s.tx.pkt :=
      .inr (.inr ⟨s.tx.seq, Function.update_self ..⟩)
    rcases hself.of_launch hlaunch with h | h | ⟨a, ha⟩
    · exact .inl (.inl h)
    · exact .inl (.inr (.inl h))
    · by_cases hseq : a = s.tx.seq
      · have hupd : (s.tx.occupy s.tx.seq s.tx.pkt).outgoing a = some s.tx.pkt := by
          rw [hseq]
          exact Function.update_self ..
        exact absurd (Option.some.inj (ha.symm.trans hupd)) hpkt
      · exact .inl (.inr (.inr ⟨a, (Function.update_of_ne hseq ..).symm.trans ha⟩))
  | resend j hj h => exact .inl (h.unacked (.inr (.inl hj)) hk)
  | reprobe j hj h =>
    have hout := (tlpCandidate_spec hj).1
    rcases h.unacked (.inr (.inr ⟨_, hout⟩)) hk with h | h | h
    · exact .inl (.inl (List.mem_of_mem_erase h))
    · exact .inl (.inr (.inl h))
    · exact .inl (.inr (.inr h))
  | lost j hj hf =>
    rw [Tx.unacked_congr hf] at hk
    exact .inl (Tx.Unacked.of_markLost (.inl hj) hk)
  | scan =>
    have htx : (rtoStart (clearTimer s)).tx = { s.tx with retransmitQueue := [] } :=
      (congrArg Core.tx (rtoStart_core (clearTimer s)) :)
    have hstart := rtoLoop_unacked _ _ _ hk
    rw [htx] at hstart
    rcases hstart with h | h | h
    · exact .inl (.inl h)
    · cases h
    · exact .inl (.inr (.inr h))
  | clear hf =>
    rw [Tx.unacked_congr hf] at hk
    rcases hk with h | h | h
    · exact .inl (.inl h)
    · cases h
    · exact .inl (.inr (.inr h))
  | take a j sack hj hf =>
    rw [Tx.unacked_congr hf] at hk
    refine .inl ?_
    have hout : ∀ b, (s.tx.setOutgoing a none).outgoing b = some k → s.tx.outgoing b = some k := by
      intro b hb
      by_cases hba : b = a
      · have hnone : (s.tx.setOutgoing a none).outgoing b = none := by
          rw [hba]
          exact Function.update_self ..
        cases hnone.symm.trans hb
      · exact (Function.update_of_ne hba ..).symm.trans hb
    unfold Tx.removeAcked at hk
    dsimp only at hk
    split_ifs at hk <;> rcases hk with h | h | ⟨b, h⟩
    all_goals first
      | exact .inl h
      | exact .inl (List.mem_of_mem_erase h)
      | exact .inr (.inl h)
      | exact .inr (.inl (List.mem_of_mem_erase h))
      | exact .inr (.inr ⟨b, hout b h⟩)

/-! ### The steps of the sender -/

theorem Tx.flight_packetize (t : Tx) (b len : ℕ) : (t.packetize b len).flight = t.flight := by
  refine t.flight_setPkt t.pkt (f := fun p => { p with
    size := p.size + len
    nwbufsCapacity :=
      if p.bufs.length = p.nwbufsCapacity then p.nwbufsCapacity * 2 % 2 ^ 16 else p.nwbufsCapacity
    bufs := p.bufs ++ [⟨b, (t.wbufs b).bytesAcked + (t.wbufs b).bytesInflight, len⟩] }) rfl

theorem startData_flight (s : Stream) :
    (startData s).tx.flight = s.tx.flight ∧ (startData s).io.now = s.io.now := by
  have hcore := startData_core s
  have hbind := s.tx.flight_setPkt s.tx.pkt (f := Packet.bindRemote s.peer) rfl
  generalize startData s = t at hcore ⊢
  have htx : t.tx.flight = (s.tx.setPkt s.tx.pkt (Packet.bindRemote s.peer)).flight :=
    (congrArg (fun c => c.tx.flight) hcore :)
  exact ⟨htx.trans hbind, (congrArg (fun c => c.io.now) hcore :)⟩

theorem fillSlice_flight (b : ℕ) (s : Stream) :
    (fillSlice b s).tx.flight = s.tx.flight ∧ (fillSlice b s).io.now = s.io.now := by
  have hpack : ∀ len, (s.withTx fun tx => tx.packetize b len).tx.flight = s.tx.flight ∧
      (s.withTx fun tx => tx.packetize b len).io.now = s.io.now := fun len =>
    ⟨s.tx.flight_packetize b len, rfl⟩
  unfold fillSlice
  dsimp only
  obtain ⟨hflight, hnow⟩ := hpack (min s.tx.pktCapacity (s.tx.wbufs b).writesz)
  generalize (s.withTx fun tx => tx.packetize b (min s.tx.pktCapacity (s.tx.wbufs b).writesz)) = x
    at hflight hnow ⊢
  split
  · exact ⟨(startData_flight x).1.trans hflight, (startData_flight x).2.trans hnow⟩
  · exact ⟨hflight, hnow⟩

theorem SendMove.flights {s t : Stream} (h : SendMove s t) : Flights s t := by
  cases h with
  | aside h => exact .same (congrArg Tx.flight h.tx) h.now
  | enter => exact .of_core (Stream.check_core ..)
  | tlpEnter => exact .of_core (Stream.check_core ..)
  | slice b => exact .same (fillSlice_flight b s).1 (fillSlice_flight b s).2
  | recover h =>
    exact .same (congrArg (fun c => c.tx.flight) h.core :) (congrArg (fun c => c.io.now) h.core :)
  | newPacket h => exact .newPacket h
  | resend k rest hk h => exact .resend k (by simp [hk]) h
  | reprobe k hk h hout hcur => exact .reprobe k hk h hout hcur
  | lost k _ hk =>
    obtain ⟨hflight, hnow⟩ := unprobeIfProbe_flight k (s.withTx fun tx => tx.markLost k)
    exact .lost k hk hflight hnow
  | rearm fromNow =>
    unfold rearmRto rearmSavedRto
    split_ifs
    · exact .same rfl rfl
    · exact .same rfl rfl
    · have hcore := Stream.check_core .rearmPending
        (s.tm.pendingTimer = .rackReo ∨ s.tm.pendingTimer = .tlp) s
      exact .of_eq (congrArg Core.tx hcore :) (congrArg Core.io hcore :)
  | fullAck =>
    have hcore := Stream.check_core .fullAckQueues
      (s.tx.inflightQueue.length = 0 ∧ s.tx.retransmitQueue.length = 0) s
    refine .of_eq (timerFullAck_tx s) ?_
    unfold timerFullAck startKeepalive
    dsimp only
    split_ifs <;> exact (congrArg Core.io hcore :)
  | shift | prepare | lossTimer | reoTimer | deadline => exact .same rfl rfl

theorem Calm.flights {s t : Stream} (h : Calm s t) : Flights s t :=
  .same (congrArg Tx.flight h.tx) h.now

section

variable {env : Env}

theorem ackTake_flight (a : SeqNo) (k : ℕ) (sack : Bool) (s : Stream) :
    (ackTake a k sack s).tx.flight = (s.tx.removeAcked a k sack).flight ∧
      (ackTake a k sack s).io.now = s.io.now := by
  have hcore := Stream.check_core .cirbufNull (s.tx.outgoingLive = true) s
  unfold ackTake
  generalize s.check .cirbufNull (s.tx.outgoingLive = true) = x at hcore ⊢
  have hbeside := takeAcked_besideCc a k sack x
  have htx := (takeAcked_tx a k sack x).trans (congrArg (fun c => c.tx.removeAcked a k sack) hcore)
  have hio : (takeAcked a k sack x).io = x.io := (congrArg (fun y => y.io) hbeside :)
  exact ⟨congrArg Tx.flight htx, (congrArg Io.now hio).trans (congrArg (fun c => c.io.now) hcore)⟩

theorem closeStart_now (err : CloseErr) (s : Stream) : (closeStart env err s).io.now = s.io.now := by
  have hdead : (markDead (s.check .closeTwice (s.st.closed = false))).toCore = s.toCore := by
    rw [markDead_core, Stream.check_core]
  have hnow : (markDead (s.check .closeTwice (s.st.closed = false))).io.now = s.io.now :=
    (congrArg (fun c => c.io.now) hdead :)
  unfold closeStart closeBegin setClosed streamTimewait Stream.announce
  dsimp only
  split <;> split <;> exact hnow

theorem destroyStart_now (s : Stream) : (destroyStart env s).io.now = s.io.now := by
  have hset : (setDestroying s).io.now = s.io.now :=
    (congrArg (fun c => c.io.now) (setDestroying_core s) :)
  unfold destroyStart
  dsimp only
  split
  · exact (closeStart_now .none _).trans hset
  · unfold destroySend queueCopy
    refine Eq.trans ?_ hset
    exact ((Sends.refl (((setDestroying s).note (.reached .destroySend (setDestroying s).toCore)).withTx
      Tx.advanceSeq)).sendCopy env .destroy _ _).now

theorem Atom.flights {s t : Stream} (h : Atom env s t) : Flights s t := by
  have hannounce : ∀ (x : Stream) (on : Bool) (c : Callback), (x.announce on c).toCore = x.toCore := by
    intro x on c
    unfold Stream.announce
    split <;> rfl
  have hprobe : ∀ x : Stream, (sendProbe env x).tx = x.tx ∧ (sendProbe env x).io.now = x.io.now := by
    intro x
    have hcore := sendProbe_core env x
    have hnow : (sendProbe env x).io.now = x.io.now := ((Sends.refl x).sendProbe env).now
    exact ⟨(congrArg Core.tx hcore :), hnow⟩
  cases h with
  | calm h => exact h.flights
  | send h => exact h.flights
  | found | begin | finish | packet | relayTo | clearRelayTo | setEnding | relay | processed | capacity
  | clearTimer | clearPacing => exact .same rfl rfl
  | changePath socket id addr cb =>
    obtain ⟨hcore, -⟩ :=
      changePath_spec socket id addr cb (s.note (.call (.changeRemote socket id addr cb) s.toCore))
    exact .of_eq (congrArg Core.tx hcore :) (congrArg Core.io hcore :)
  | remoteChanged =>
    have hcore := hannounce (Udx.remoteChanged s) s.handlers.onRemoteChanged .remoteChanged
    exact .of_eq (congrArg Core.tx hcore :) (congrArg Core.io hcore :)
  | tick ms => exact .drop rfl (fun _ _ h => h) (fun _ => rfl) (Nat.le_add_right ..)
  | rtoScan due _ ht hcur => exact .scan s hcur
  | cancelDone k | ackDrop k => exact .same (s.tx.flight_derefPacket k) rfl
  | cancelSeq a k _ hclosed =>
    have hnever : s.st.dead ≠ false := by simp [Status.dead, hclosed]
    refine .drop rfl (fun b j hj => ?_) (fun hlive => absurd hlive hnever) (Nat.le_refl _)
    by_cases hb : b = a
    · have hnone : (s.tx.setOutgoing a none).outgoing b = none := by
        rw [hb]
        exact Function.update_self ..
      cases hnone.symm.trans hj
    · exact (Function.update_of_ne hb ..).symm.trans hj
  | setKeepalive ms =>
    unfold udxStreamSetKeepalive
    dsimp only
    split <;> exact .same rfl rfl
  | queueWrite bufs onAck isEnd =>
    have hqueued : (s.tx.queueWrite bufs onAck isEnd).flight = s.tx.flight :=
      (congrArg Tx.flight (queueWrite_unqueued bufs onAck isEnd s.tx) :)
    obtain ⟨htx, hnow⟩ := hprobe (s.withTx fun tx => tx.queueWrite bufs onAck isEnd)
    unfold Udx.queueWrite probeWindow
    dsimp only
    split
    · exact .same ((congrArg Tx.flight htx).trans hqueued) hnow
    · exact .same hqueued rfl
  | bind socket id addr =>
    have hset : ∀ x : Stream, (setRemoteAddr (some socket) addr x).1.tx = x.tx ∧
        (setRemoteAddr (some socket) addr x).1.io = x.io := by
      intro x
      rw [setRemoteAddr_core]
      exact ⟨rfl, rfl⟩
    unfold connectBind
    dsimp only
    split
    · exact .of_eq (hset _).1 (hset _).2
    · exact .of_eq (hset _).1 (hset _).2
  | keepalive =>
    unfold connectKeepalive
    dsimp only
    split <;> exact .same rfl rfl
  | destroy =>
    rcases destroyStart_core env s with ⟨-, heq⟩ | ⟨-, hcore, -⟩
    · have hset := setDestroying_core s
      rw [heq]
      exact .same ((congrArg Tx.flight (closeStart_packing env .none (setDestroying s)).1).trans
        (congrArg (fun c => c.tx.flight) hset :))
        ((closeStart_now .none (setDestroying s)).trans (congrArg (fun c => c.io.now) hset :))
    · exact .same (congrArg (fun c => c.tx.flight) hcore :) (destroyStart_now s)
  | close err => exact .same (congrArg Tx.flight (closeStart_packing env err s).1) (closeStart_now err s)
  | cancelPkt =>
    have hcore := Stream.check_core .packetHeld ((s.tx.pkts s.tx.pkt).refCount = 1) s
    exact .of_eq (congrArg Core.tx hcore :) (congrArg Core.io hcore :)
  | cancelChunk c rest =>
    have hcore : (Udx.cancelChunk c rest s).toCore = { s.toCore with
        tx := s.tx.countBytes c.wbuf c.len true, ctl := { s.ctl with cancelling := rest } } :=
      (hannounce ..).trans (countBytes_core c.wbuf c.len true (setCancelling rest s))
    exact .same (congrArg (fun c => c.tx.flight) hcore) (congrArg (fun c => c.io.now) hcore)
  | cancelQueued b rest =>
    have hcore : (Udx.cancelQueued b rest s).toCore = { (shiftWriteQueue rest s).toCore with
        tx := (shiftWriteQueue rest s).tx.countBytes b
          ((s.tx.wbufs b).buf.length - (s.tx.wbufs b).bytesAcked) true } :=
      (hannounce ..).trans (countBytes_core ..)
    exact .same (congrArg (fun c => c.tx.flight) hcore) (congrArg (fun c => c.io.now) hcore)
  | release _ hclosed =>
    have hnever : s.st.dead ≠ false := by simp [Status.dead, hclosed]
    unfold releaseHandles udxStreamReadStop
    split <;> exact .drop rfl (fun _ _ h => by cases h) (fun hlive => absurd hlive hnever) (Nat.le_refl _)
  | keepaliveTimeout =>
    have hcore := Stream.check_core .keepaliveIdle (s.tx.seq = s.tx.remoteAcked) (Udx.clearTimer s)
    obtain ⟨htx, hnow⟩ := hprobe ((Udx.clearTimer s).check .keepaliveIdle (s.tx.seq = s.tx.remoteAcked))
    exact .same (congrArg Tx.flight (htx.trans (congrArg Core.tx hcore :)))
      (hnow.trans (congrArg (fun c => c.io.now) hcore :))
  | zwpTimeout =>
    have hnow := ((Sends.refl (Udx.clearTimer s)).udxZwpTimeout env).now
    refine .same (congrArg Tx.flight ?_) hnow
    unfold udxZwpTimeout
    dsimp only
    show (Stream.check _ _ _).tx = s.tx
    rw [Stream.check_tx, Stream.check_tx, (hprobe _).1]
    show (Stream.check _ _ _).tx = s.tx
    rw [Stream.check_tx, Stream.check_tx, Stream.check_tx]
    rfl
  | giveUp =>
    have hcore := rtoStart_core (Udx.clearTimer s)
    have hdrop : (dropTimewaitOnError .timedOut (rtoStart (Udx.clearTimer s))).tx =
        { s.tx with retransmitQueue := [] } ∧
        (dropTimewaitOnError .timedOut (rtoStart (Udx.clearTimer s))).io.now = s.io.now := by
      unfold dropTimewaitOnError
      split <;> exact ⟨(congrArg Core.tx hcore :), (congrArg (fun c => c.io.now) hcore :)⟩
    unfold rtoGiveUp closeUnlessDestroying
    dsimp only
    split
    · exact .clear (congrArg Tx.flight hdrop.1) hdrop.2
    · exact .clear (congrArg Tx.flight ((closeStart_packing env ..).1.trans hdrop.1))
        ((closeStart_now ..).trans hdrop.2)
  | uvSent i =>
    unfold Udx.uvSent
    split
    · exact .same rfl rfl
    · split <;> exact .same rfl rfl
  | uvDone i =>
    unfold Udx.uvDone
    split
    · exact .same rfl rfl
    · next u hu => exact .same (Tx.flight_derefPacket { s.tx with uvq := s.tx.uvq.eraseIdx i } u.pkt) rfl
  | copySent i =>
    unfold Udx.copySent
    split
    · exact .same rfl rfl
    · split <;> exact .same rfl rfl
  | window p =>
    unfold updateSendWindow stopZwp
    split_ifs <;> exact .same rfl rfl
  | ackInit p => exact .same rfl rfl
  | ackAbsent p c =>
    have hcore := Stream.check_core .cirbufNull (s.tx.outgoingLive = true) (setCursor (some (c + 1)) s)
    exact .same (congrArg (fun c => c.tx.flight) hcore :) (congrArg (fun c => c.io.now) hcore :)
  | sackAbsent c => exact .of_core (Stream.check_core ..)
  | ackTake p c k _ hp hdead hc hlt hk =>
    obtain ⟨hflight, hnow⟩ := ackTake_flight c k false (setCursor (some (c + 1)) s)
    exact .take c k false hk hflight hnow
  | sackTake c k _ hc hk =>
    obtain ⟨hflight, hnow⟩ := ackTake_flight c k true s
    exact .take c k true hk hflight hnow
  | sackDead c k x rest _ hc hk =>
    have hcore := ackBytes_core x rest (Udx.ackTake c k true s)
    obtain ⟨hflight, hnow⟩ := ackTake_flight c k true s
    exact .take c k true hk ((congrArg (fun c => c.tx.flight) hcore).trans hflight)
      ((congrArg (fun c => c.io.now) hcore).trans hnow)
  | chunk c rest =>
    have hcore := ackBytes_core c rest s
    exact .same (congrArg (fun c => c.tx.flight) hcore) (congrArg (fun c => c.io.now) hcore)
  | complete b sack =>
    have hcore : (completeStage b sack s).toCore = (clearAckDue s).toCore := hannounce ..
    exact .of_eq (congrArg Core.tx hcore :) (congrArg Core.io hcore :)
  | ackDone k =>
    unfold Udx.ackDone ackEnd
    split <;> exact .same (s.tx.flight_derefPacket k) rfl
  | advance p =>
    unfold advanceRemoteAcked
    dsimp only
    split <;> exact .same rfl rfl
  | timerEnded =>
    unfold Udx.timerEnded startKeepalive
    split_ifs <;> exact .same rfl rfl

/-- In every reachable state the packets that are out are in the queues they
should be in. -/
theorem Reach.queued {cfg : Config} {s : Stream} (h : Reach env cfg s) :
    Queued s.io.now s.tx.pkt s.tx := by
  refine h.atoms (I := fun s => Queued s.io.now s.tx.pkt s.tx) ?_ fun ha hs => ha.flights.queued hs
  rw [init_tx]
  exact ⟨nofun, List.nodup_nil, List.nodup_nil, nofun, nofun, .nil, nofun⟩

theorem AtomPath.queued {s t : Stream} (h : AtomPath env s t) (hs : Queued s.io.now s.tx.pkt s.tx) :
    Queued t.io.now t.tx.pkt t.tx :=
  h.preserves (I := fun s => Queued s.io.now s.tx.pkt s.tx) (fun ha hs => ha.flights.queued hs) hs

end

end Udx
