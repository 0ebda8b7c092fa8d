/-
# The rate sample of a datagram

`udx__rate_pkt_delivered` keeps the sample of the latest-sent packet that a
datagram acknowledges, and takes `prior_delivered == 0` for "no sample yet". A
packet of the first flight was sent with `delivered == 0`, so whatever the
loops visit after it replaces it.

Key definitions: `Rate`, `Rate.take`, `ackedPackets`, `ackedStream`.
Key theorems: `foldl_take_iff`, `ackedStream_rate`, `processAcks_rate_iff`.
-/
import Udx.Paths
import Udx.Sacks

namespace Udx

open Serial

/-! ### Samples -/

/-- What identifies the packet of a rate sample, and `first_sent_ts`. -/
structure Rate where
  seq : SeqNo
  priorDelivered : SeqNo
  priorTimestamp : ℕ
  isAppLimited : Bool
  firstSentTs : ℕ
  deriving DecidableEq

def Stream.rate (s : Stream) : Rate :=
  { seq := s.ctl.rs.seq
    priorDelivered := s.ctl.rs.priorDelivered
    priorTimestamp := s.ctl.rs.priorTimestamp
    isAppLimited := s.ctl.rs.isAppLimited
    firstSentTs := s.cc.firstSentTs }

/-- The sample that packet `m` gives. -/
def Packet.rate (m : Packet) : Rate :=
  { seq := m.seq
    priorDelivered := m.delivered
    priorTimestamp := m.deliveredTs
    isAppLimited := m.isAppLimited
    firstSentTs := m.timeSent }

/-- `udx__rate_pkt_delivered`. -/
def Rate.take (r : Rate) (pkt : Packet) : Rate :=
  if pkt.deliveredTs = 0 then r
  else if r.priorDelivered = 0 ∨ rackSentAfter pkt.timeSent pkt.seq r.firstSentTs r.seq = true then pkt.rate
  else r

/-- The packet has what a sample is made of. -/
def Packet.stamped (p : Packet) : Bool := p.deliveredTs != 0

/-- `m` was sent later than `q`, and not the other way round too. -/
def SentAfter (m q : Packet) : Prop :=
  rackSentAfter m.timeSent m.seq q.timeSent q.seq = true ∧
    rackSentAfter q.timeSent q.seq m.timeSent m.seq = false

theorem SentAfter.rate_ne {m q : Packet} (h : SentAfter m q) : q.rate ≠ m.rate := by
  intro heq
  have hseq : q.seq = m.seq := congrArg Rate.seq heq
  have htime : q.timeSent = m.timeSent := congrArg Rate.firstSentTs heq
  have hlater := h.1
  have hearlier := h.2
  rw [hseq, htime] at hlater hearlier
  exact Bool.false_ne_true (hearlier.symm.trans hlater)

theorem Rate.take_cases {p : Packet} (r : Rate) : r.take p = r ∨ r.take p = p.rate := by
  unfold Rate.take
  split_ifs
  · exact .inl rfl
  · exact .inr rfl
  · exact .inl rfl

/-- A later packet is taken for the sample. -/
theorem SentAfter.take {m q : Packet} (h : SentAfter m q) (hm : m.deliveredTs ≠ 0) : q.rate.take m = m.rate := by
  unfold Rate.take
  rw [if_neg hm]
  exact if_pos (.inr h.1)

theorem Rate.take_unset {m : Packet} {r : Rate} (h : r.priorDelivered = 0) (hm : m.deliveredTs ≠ 0) :
    r.take m = m.rate := by
  unfold Rate.take
  rw [if_neg hm, if_pos (.inl h)]

/-- A sample that is set stays where only earlier packets come. -/
theorem foldl_take_of_set {m : Packet} {l : List Packet} (hset : m.delivered ≠ 0)
    (hlast : ∀ q ∈ l, SentAfter m q) : l.foldl Rate.take m.rate = m.rate := by
  induction l with
  | nil => rfl
  | cons q l ih =>
    have hkeep : m.rate.take q = m.rate := by
      have hearlier := (hlast q List.mem_cons_self).2
      unfold Rate.take
      split
      · rfl
      · rw [if_neg]
        rintro (hunset | hlater)
        · exact hset hunset
        · exact Bool.false_ne_true (hearlier.symm.trans hlater)
    rw [List.foldl_cons, hkeep]
    exact ih fun q hq => hlast q (List.mem_cons_of_mem _ hq)

/-- The sample is always that of a packet that was visited. -/
theorem foldl_take_mem (l : List Packet) (r : Rate) :
    l.foldl Rate.take r = r ∨ ∃ q ∈ l, l.foldl Rate.take r = q.rate := by
  induction l generalizing r with
  | nil => exact .inl rfl
  | cons p l ih =>
    rw [List.foldl_cons]
    rcases ih (r.take p) with hsame | ⟨q, hq, hs⟩
    · rw [hsame]
      rcases Rate.take_cases r with hkeep | htake
      · exact .inl hkeep
      · exact .inr ⟨p, List.mem_cons_self, htake⟩
    · exact .inr ⟨q, List.mem_cons_of_mem _ hq, hs⟩

/-- Packets without a stamp are passed over. -/
theorem foldl_take_filter (l : List Packet) (r : Rate) :
    l.foldl Rate.take r = (l.filter Packet.stamped).foldl Rate.take r := by
  induction l generalizing r with
  | nil => rfl
  | cons p l ih =>
    rw [List.foldl_cons, ih]
    by_cases hp : p.deliveredTs = 0
    · have hskip : r.take p = r := if_pos hp
      rw [hskip, List.filter_cons_of_neg (by simp [Packet.stamped, hp])]
    · rw [List.filter_cons_of_pos (by simp [Packet.stamped, hp]), List.foldl_cons]

/-- The sample comes to the latest-sent packet just where that was sent with
something delivered, or is visited last. -/
theorem foldl_take_iff {before after : List Packet} {m : Packet} {r : Rate} (hr : r.priorDelivered = 0)
    (hstamp : ∀ q ∈ before ++ m :: after, q.deliveredTs ≠ 0) (hlast : ∀ q ∈ before ++ after, SentAfter m q) :
    (before ++ m :: after).foldl Rate.take r = m.rate ↔ m.delivered ≠ 0 ∨ after = [] := by
  have hm : m.deliveredTs ≠ 0 := hstamp m (by simp)
  have htaken : (before.foldl Rate.take r).take m = m.rate := by
    rcases foldl_take_mem before r with hsame | ⟨q, hq, hs⟩
    · rw [hsame]
      exact Rate.take_unset hr hm
    · rw [hs]
      exact (hlast q (List.mem_append_left _ hq)).take hm
  have hlater : ∀ q ∈ after, SentAfter m q := fun q hq => hlast q (List.mem_append_right _ hq)
  rw [List.foldl_append, List.foldl_cons, htaken]
  by_cases hset : m.delivered = 0
  · cases after with
    | nil => exact ⟨fun _ => .inr rfl, fun _ => rfl⟩
    | cons p rest =>
      -- the marker says that there is no sample, so the next packet is taken
      have hp : m.rate.take p = p.rate := Rate.take_unset hset (hstamp p (by simp))
      have hother : ∃ q ∈ p :: rest, (p :: rest).foldl Rate.take m.rate = q.rate := by
        rw [List.foldl_cons, hp]
        rcases foldl_take_mem rest p.rate with hsame | ⟨q, hq, hs⟩
        · exact ⟨p, List.mem_cons_self, hsame⟩
        · exact ⟨q, List.mem_cons_of_mem _ hq, hs⟩
      obtain ⟨q, hq, hs⟩ := hother
      refine ⟨fun h => ?_, fun h => ?_⟩
      · exact absurd (hs.symm.trans h) (hlater q hq).rate_ne
      · rcases h with h | h
        · exact absurd hset h
        · cases h
  · exact ⟨fun _ => .inl hset, fun _ => foldl_take_of_set hset hlater⟩

/-! ### What acknowledging does to the sample -/

theorem udxRatePktDelivered_rate (pkt : Packet) (s : Stream) :
    (udxRatePktDelivered pkt s).rate = s.rate.take pkt := by
  unfold udxRatePktDelivered Rate.take
  split_ifs <;> first | rfl | contradiction

theorem rackAcked_rate (p : Packet) (seq : SeqNo) (s : Stream) : (rackAcked p seq s).rate = s.rate := by
  have hsample : ∀ (re : Bool) (rtt : ℕ) (x : Stream), (sampleRtt re rtt x).rate = x.rate := by
    intro re rtt x
    unfold sampleRtt updateRtt updateRto updateSrtt Stream.withCc
    split_ifs
    · rfl
    · dsimp only
      split_ifs <;> rfl
  have hupdate : ∀ (rtt : ℕ) (next : SeqNo) (x : Stream), (rackUpdate p rtt next x).rate = x.rate := by
    intro rtt next x
    unfold rackUpdate Stream.withCc
    split
    · dsimp only
      split_ifs <;> rfl
    · rfl
  have hdetect : ∀ (re : Bool) (next : SeqNo) (x : Stream), (rackDetectReordering re next x).rate = x.rate := by
    intro re next x
    unfold rackDetectReordering Stream.withCc
    dsimp only
    split_ifs <;> rfl
  unfold rackAcked
  dsimp only
  rw [hdetect, hupdate, hsample]

theorem takeAcked_rate (seq : SeqNo) (k : ℕ) (sack : Bool) (s : Stream) :
    (takeAcked seq k sack s).rate = s.rate.take (s.tx.pkts k) := by
  unfold takeAcked
  dsimp only
  rw [rackAcked_rate, udxRatePktDelivered_rate]
  rfl

/-- The packets `ps` are taken from `s` to `t`, and no new flight starts. -/
structure Rated (ps : List Packet) (s t : Stream) : Prop where
  remoteAcked : t.tx.remoteAcked = s.tx.remoteAcked
  dead : s.st.dead = true → t.st.dead = true
  span : s.tx.span ≤ t.tx.span
  outstanding : t.st.dead = false → t.tx.span < 2 ^ 32 → s.tx.seq ≠ s.tx.remoteAcked →
    t.tx.seq ≠ t.tx.remoteAcked
  rate : t.st.dead = false → t.tx.span < 2 ^ 32 → s.tx.seq ≠ s.tx.remoteAcked →
    t.rate = ps.foldl Rate.take s.rate

namespace Rated

variable {ps ps' : List Packet} {s t u : Stream}

theorem refl (s : Stream) : Rated [] s s := ⟨rfl, id, Nat.le_refl _, fun _ _ => id, fun _ _ _ => rfl⟩

theorem trans (h : Rated ps s t) (h' : Rated ps' t u) : Rated (ps ++ ps') s u := by
  have hlive : u.st.dead = false → t.st.dead = false := by
    intro hu
    cases ht : t.st.dead
    · rfl
    · rw [h'.dead ht] at hu
      cases hu
  have hout : u.st.dead = false → u.tx.span < 2 ^ 32 → s.tx.seq ≠ s.tx.remoteAcked →
      t.tx.seq ≠ t.tx.remoteAcked :=
    fun hu hn => h.outstanding (hlive hu) (Nat.lt_of_le_of_lt h'.span hn)
  refine ⟨h'.remoteAcked.trans h.remoteAcked, h'.dead ∘ h.dead, Nat.le_trans h.span h'.span,
    fun hu hn hs => h'.outstanding hu hn (hout hu hn hs), fun hu hn hs => ?_⟩
  rw [List.foldl_append, h'.rate hu hn (hout hu hn hs),
    h.rate (hlive hu) (Nat.lt_of_le_of_lt h'.span hn) hs]

theorem andStill (h : Rated ps s t) (h' : Rated [] t u) : Rated ps s u := by
  have := h.trans h'
  rwa [List.append_nil] at this

theorem keeps (h : Keeps s t) : Rated [] s t := by
  refine ⟨h.remoteAcked, h.dead, h.span, h.outstanding, fun ht hn hs => ?_⟩
  have hrs := h.rs
  have hfirst := h.flight ht hn hs
  unfold Stream.rate
  rw [hrs, hfirst]
  rfl

/-- A step that leaves the sequence numbers alone. -/
theorem of_stays (h : AckStays s t) (hr : t.rate = ps.foldl Rate.take s.rate) : Rated ps s t :=
  ⟨h.remoteAcked, h.dead, h.span, h.outstanding, fun _ _ _ => hr⟩

theorem still (hr : t.rate = s.rate) (hra : t.tx.remoteAcked = s.tx.remoteAcked) (hs : t.tx.seq = s.tx.seq)
    (hn : t.tx.span = s.tx.span) (hd : t.st.dead = s.st.dead) : Rated [] s t := by
  refine ⟨hra, fun h => hd ▸ h, Nat.le_of_eq hn.symm, fun _ _ h => ?_, fun _ _ _ => hr⟩
  rw [hs, hra]
  exact h

end Rated

section

variable {env : Env} {cb : Hook}

theorem chunkStage_rated (c : Chunk) (rest : List Chunk) (s : Stream) : Rated [] s (chunkStage c rest s) := by
  have hset : Rated [] s (setAcking rest (some c.wbuf)
      (s.withTx fun tx => { tx with bytesAcked := tx.bytesAcked + c.len })) := .still rfl rfl rfl rfl rfl
  have hcount : Rated [] s (ackBytes c rest s) := by
    unfold ackBytes
    exact hset.andStill (.keeps ((Keeps.refl _).countBytes _ _ _))
  unfold chunkStage clearHighWatermark
  dsimp only
  split
  · exact hcount.andStill (.keeps (((Keeps.refl _).withWin _).announce _ _))
  · exact hcount

theorem ackBufs_rated (ht : Tame env cb) (sack : Bool) (bufs : List Chunk) (s : Stream) :
    Rated [] s (ackBufs cb sack bufs s).1 := by
  induction bufs generalizing s with
  | nil => exact .refl s
  | cons c rest ih =>
    have hdrain : Rated [] s (drain cb (ackBytes c rest s)) :=
      (chunkStage_rated c rest s).andStill (.keeps (chunkStage_path ht c rest s).keeps)
    have hwrite : ∀ x : Stream, Rated [] x (ackWrite cb c.wbuf sack x) := by
      intro x
      have hclear : Rated [] x (clearAckDue x) := .still rfl rfl rfl rfl rfl
      have hstage : Rated [] x (completeStage c.wbuf sack x) := by
        unfold completeStage
        exact hclear.andStill (.keeps ((Keeps.refl _).announce _ _))
      exact hstage.andStill (.keeps (completeStage_path ht c.wbuf sack x).keeps)
    unfold ackBufs
    dsimp only
    split_ifs
    · exact hdrain
    · exact hdrain.andStill (hwrite _)
    · exact (hdrain.andStill (hwrite _)).andStill (ih _)

theorem afterAck_rated (r : Stream × AckResult) : Rated [] r.1 (afterAck r) := by
  obtain ⟨s, r⟩ := r
  cases r
  · exact .refl s
  · exact .still rfl rfl rfl rfl rfl
  · exact .refl s

/-- The packet at `seq`, if it is outstanding. -/
def takenAt (seq : SeqNo) (s : Stream) : List Packet := ((s.tx.outgoing seq).map s.tx.pkts).toList

theorem ackPacket_rated (ht : Tame env cb) (seq : SeqNo) (sack : Bool) (s : Stream) :
    Rated (takenAt seq s) s (afterAck (ackPacket cb seq sack s)) := by
  have hcheck : Rated [] s (s.check .cirbufNull (s.tx.outgoingLive = true)) :=
    .keeps ((Keeps.refl _).check _ _)
  unfold ackPacket takenAt
  dsimp only
  rw [Stream.check_tx]
  cases hk : s.tx.outgoing seq with
  | none =>
    have hmissing : ∀ x : Stream, Rated [] x (ackMissing sack x) := by
      intro x
      unfold ackMissing
      split
      · exact .refl x
      · exact .still rfl rfl rfl rfl rfl
    exact hcheck.andStill (hmissing _)
  | some k =>
    have htake : Rated [s.tx.pkts k] s (takeAcked seq k sack (s.check .cirbufNull (s.tx.outgoingLive = true))) := by
      refine hcheck.trans (.of_stays (takeAcked_stays seq k sack _) ?_)
      rw [takeAcked_rate, Stream.check_tx]
      rfl
    refine (htake.andStill ?_).andStill (afterAck_rated _)
    unfold ackFound
    dsimp only
    have hbufs := ackBufs_rated ht sack
      ((takeAcked seq k sack (s.check .cirbufNull (s.tx.outgoingLive = true))).tx.pkts k).bufs
      (takeAcked seq k sack (s.check .cirbufNull (s.tx.outgoingLive = true)))
    have hderef : ∀ x : Stream, Rated [] x (derefPacket k x) := fun x => .still rfl rfl rfl rfl rfl
    split
    · exact hbufs.andStill (hderef _)
    · refine (hbufs.andStill (hderef _)).andStill ?_
      unfold ackEnd
      split
      · exact .still rfl rfl rfl rfl rfl
      · exact .refl _

/-! ### The loops -/

variable (cb) in
/-- The packets that `ackLoop` takes, in the order it visits them. -/
def ackLoopTakes (ack : SeqNo) : ℕ → SeqNo → Stream → List Packet
  | 0, _, _ => []
  | n + 1, p, s =>
    if seqCompare p ack < 0 then
      takenAt p s ++ match ackPacket cb p false (setCursor (some (p + 1)) s) with
        | (_, .stop) => []
        | (s, .acked) => ackLoopTakes ack n (p + 1) (countDelivered s)
        | (s, .absent) => ackLoopTakes ack n (p + 1) s
    else []

variable (cb) in
/-- The packets that `sackRange` takes. -/
def sackRangeTakes : ℕ → SeqNo → Stream → List Packet
  | 0, _, _ => []
  | n + 1, p, s =>
    takenAt p s ++ match ackPacket cb p true s with
      | (_, .stop) => []
      | (s, .acked) => sackRangeTakes n (p + 1) (countDelivered s)
      | (s, .absent) => sackRangeTakes n (p + 1) s

variable (cb) in
/-- The packets that `sackLoop` takes. -/
def sackLoopTakes : List (SeqNo × SeqNo) → Stream → List Packet
  | [], _ => []
  | (start, stop) :: rest, s =>
    let s := setSacksLeft rest s
    if udxSackIsValid start stop s then
      sackRangeTakes cb (stop - start).toNat start s ++
        sackLoopTakes rest (sackRange cb (stop - start).toNat start s)
    else sackLoopTakes rest s

theorem ackLoop_rated (ht : Tame env cb) (ack : SeqNo) (n : ℕ) (p : SeqNo) (s : Stream) :
    Rated (ackLoopTakes cb ack n p s) s (ackLoop cb ack n p s).1 := by
  induction n generalizing p s with
  | zero => exact .refl s
  | succ n ih =>
    by_cases hlt : seqCompare p ack < 0
    · have hcursor : Rated [] s (setCursor (some (p + 1)) s) := .still rfl rfl rfl rfl rfl
      have hone := hcursor.trans (ackPacket_rated ht p false (setCursor (some (p + 1)) s))
      rw [List.nil_append, show takenAt p (setCursor (some (p + 1)) s) = takenAt p s from rfl] at hone
      rw [ackLoop_succ hlt, ackLoopTakes, if_pos hlt]
      generalize ackPacket cb p false (setCursor (some (p + 1)) s) = r at hone ⊢
      obtain ⟨t, r⟩ := r
      cases r with
      | stop =>
        rw [List.append_nil]
        exact hone
      | acked => exact hone.trans (ih _ _)
      | absent => exact hone.trans (ih _ _)
    · rw [ackLoop, ackLoopTakes, if_neg hlt, if_neg hlt]
      exact .refl s

theorem sackRange_rated (ht : Tame env cb) (n : ℕ) (p : SeqNo) (s : Stream) :
    Rated (sackRangeTakes cb n p s) s (sackRange cb n p s) := by
  induction n generalizing p s with
  | zero => exact .refl s
  | succ n ih =>
    have hone := ackPacket_rated ht p true s
    rw [sackRange_succ, sackRangeTakes]
    generalize ackPacket cb p true s = r at hone ⊢
    obtain ⟨t, r⟩ := r
    cases r with
    | stop =>
      rw [List.append_nil]
      exact hone
    | acked => exact hone.trans (ih _ _)
    | absent => exact hone.trans (ih _ _)

theorem sackLoop_rated (ht : Tame env cb) (sacks : List (SeqNo × SeqNo)) (s : Stream) :
    Rated (sackLoopTakes cb sacks s) s (sackLoop cb sacks s) := by
  induction sacks generalizing s with
  | nil => exact .refl s
  | cons r rest ih =>
    obtain ⟨start, stop⟩ := r
    have hleft : Rated [] s (setSacksLeft rest s) := .still rfl rfl rfl rfl rfl
    rw [sackLoop, sackLoopTakes]
    split
    · exact (hleft.trans (sackRange_rated ht _ _ _)).trans (ih _)
    · exact hleft.trans (ih _)

/-! ### The sample of a datagram -/

variable (cb) in
/-- The stream after the ack loops of `processAcks`, and whether they were
left by `ended`. -/
def ackedStream (p : RxPacket) (s : Stream) : Stream × Bool :=
  let n := (p.h.ack - p.priorRemoteAcked).toNat
  let (s, ended) := ackLoop cb p.h.ack n p.priorRemoteAcked (startAcks p s)
  let s := advanceRemoteAcked p s
  (if ended then s else sackLoop cb p.sacks s, ended)

variable (cb) in
/-- The packets they take, in the order of the visits. -/
def ackedPackets (p : RxPacket) (s : Stream) : List Packet :=
  let n := (p.h.ack - p.priorRemoteAcked).toNat
  let (t, ended) := ackLoop cb p.h.ack n p.priorRemoteAcked (startAcks p s)
  ackLoopTakes cb p.h.ack n p.priorRemoteAcked (startAcks p s) ++
    if ended then [] else sackLoopTakes cb p.sacks (advanceRemoteAcked p t)

theorem processAcks_eq (env : Env) (p : RxPacket) (s : Stream) :
    processAcks env cb p s =
      if (ackedStream cb p s).2 then processEnded env cb (ackedStream cb p s).1
      else afterSacks env cb p (ackedStream cb p s).1 := by
  unfold processAcks ackedStream
  dsimp only
  split_ifs <;> rfl

/-- With nothing outstanding the SACK ranges take nothing. -/
theorem sackLoop_none (sacks : List (SeqNo × SeqNo)) {s : Stream} (hs : s.tx.seq = s.tx.remoteAcked) :
    sackLoopTakes cb sacks s = [] ∧ (sackLoop cb sacks s).rate = s.rate := by
  induction sacks generalizing s with
  | nil => exact ⟨rfl, rfl⟩
  | cons r rest ih =>
    obtain ⟨start, stop⟩ := r
    have hvalid := udxSackIsValid_idle start stop rest hs.symm
    have hrest := ih (s := setSacksLeft rest s) hs
    rw [sackLoop, sackLoopTakes]
    simp only [hvalid, Bool.false_eq_true, if_false]
    exact hrest

/-- The sample at the end of the ack loops is the fold over what they took. -/
theorem ackedStream_rate (ht : Tame env cb) (p : RxPacket) (s : Stream)
    (hlive : (ackedStream cb p s).1.st.dead = false) (hspan : (ackedStream cb p s).1.tx.span < 2 ^ 32)
    (hout : s.tx.seq ≠ s.tx.remoteAcked) :
    (ackedStream cb p s).1.rate = (ackedPackets cb p s).foldl Rate.take (startAcks p s).rate := by
  have hloop := ackLoop_rated ht p.h.ack (p.h.ack - p.priorRemoteAcked).toNat p.priorRemoteAcked (startAcks p s)
  have hadvance : ∀ x : Stream, (advanceRemoteAcked p x).rate = x.rate ∧
      (advanceRemoteAcked p x).st = x.st ∧ (advanceRemoteAcked p x).tx.span = x.tx.span := by
    intro x
    unfold advanceRemoteAcked setRemoteAcked
    dsimp only
    split_ifs <;> exact ⟨rfl, rfl, rfl⟩
  unfold ackedStream at hlive hspan ⊢
  unfold ackedPackets
  dsimp only at hlive hspan ⊢
  generalize ackLoop cb p.h.ack (p.h.ack - p.priorRemoteAcked).toNat p.priorRemoteAcked (startAcks p s) = r
    at hloop hlive hspan ⊢
  obtain ⟨t, ended⟩ := r
  obtain ⟨hrate, hst, hsp⟩ := hadvance t
  cases ended with
  | true =>
    simp only [if_true] at hlive hspan ⊢
    rw [List.append_nil, hrate]
    exact hloop.rate (hst ▸ hlive) (hsp ▸ hspan) hout
  | false =>
    simp only [Bool.false_eq_true, if_false] at hlive hspan ⊢
    have hsacks := sackLoop_rated ht p.sacks (advanceRemoteAcked p t)
    have hlive' : t.st.dead = false := by
      cases hd : t.st.dead
      · rfl
      · rw [hsacks.dead (by rw [hst]; exact hd)] at hlive
        cases hlive
    have hspan' : t.tx.span < 2 ^ 32 := Nat.lt_of_le_of_lt (hsp ▸ hsacks.span) hspan
    have ht' := hloop.rate hlive' hspan' hout
    rw [List.foldl_append, ← ht', ← hrate]
    by_cases hidle : (advanceRemoteAcked p t).tx.seq = (advanceRemoteAcked p t).tx.remoteAcked
    · have hnone : sackLoopTakes cb p.sacks (advanceRemoteAcked p t) = [] ∧
          (sackLoop cb p.sacks (advanceRemoteAcked p t)).rate = (advanceRemoteAcked p t).rate :=
        sackLoop_none p.sacks hidle
      rw [hnone.1]
      exact hnone.2
    · exact hsacks.rate hlive hspan hidle

/-- The rate sample of a datagram is that of the latest-sent packet it
acknowledges just where that packet was sent with something delivered, or is
visited last. -/
theorem processAcks_rate_iff (hcb : Layered env cb) (p : RxPacket) (s : Stream)
    (hlive : (ackedStream cb p s).1.st.dead = false) (hspan : (ackedStream cb p s).1.tx.span < 2 ^ 32)
    (hout : s.tx.seq ≠ s.tx.remoteAcked) {before after : List Packet} {m : Packet}
    (hpackets : (ackedPackets cb p s).filter Packet.stamped = before ++ m :: after)
    (hlast : ∀ q ∈ before ++ after, SentAfter m q) :
    (ackedStream cb p s).1.rate = m.rate ↔ m.delivered ≠ 0 ∨ after = [] := by
  have hstamp : ∀ q ∈ before ++ m :: after, q.deliveredTs ≠ 0 := by
    intro q hq
    rw [← hpackets, List.mem_filter] at hq
    simpa [Packet.stamped] using hq.2
  rw [ackedStream_rate hcb.tame p s hlive hspan hout, foldl_take_filter, hpackets]
  exact foldl_take_iff rfl hstamp hlast

/-! ### Two packets of the first flight -/

/-- The ack loops of `processPacket`, where it reaches them. -/
def ackStart (env : Env) (cb : Hook) (d : List UInt8) (s : Stream) : Option (RxPacket × Stream) :=
  packetAcks env cb (fun p _ u => some (p, u)) (fun _ => none) d true s

theorem ackStart_some {d : List UInt8} {s u : Stream} {p : RxPacket} (h : ackStart env cb d s = some (p, u)) :
    processPacket env cb d true s = processAcks env cb p u := by
  have hreaches : Reaches env cb (fun p _ u => some (p, u)) (fun _ => none) (ackStart env cb d s)
      (processPacket env cb d true s) := packetAcks_reaches d true s
  obtain hskip | ⟨p', seq, u', -, hacks, hprocess⟩ := hreaches
  · rw [hskip] at h
    cases h
  · rw [hacks] at h
    cases h
    exact hprocess

def rateConfig : Config := { localId := 1, seq := 0, ack := 0, now := 1 }

/-- Two packets go out, and the first once more after a retransmission
timeout. -/
def flightEvents : List Event :=
  [.call (.connect ⟨0, .inet⟩ 2 ⟨.inet, 1, [1, 2, 3, 4]⟩), .call (.write [[7]] false), .prepare,
    .call (.write [[8]] false), .prepare, .tick 1000, .timer, .tick 3000, .timer]

/-- The datagram that acknowledges the first packet, or both. -/
def ackUpTo (ack : SeqNo) : List UInt8 :=
  ({ type := 0, dataOffset := 0, remoteId := 1, rwnd := 65535, seq := 0, ack := ack } : Header).encode

/-- What the ack loops take, the sample they end with, and whether the stream
is live with data in flight. -/
def rateSummary (r : RxPacket × Stream) : List Rate × Rate × Bool :=
  let u := (ackedStream Hook.quiet r.1 r.2).1
  ((ackedPackets Hook.quiet r.1 r.2).map Packet.rate, u.rate,
    !u.st.dead && decide (u.tx.span < 2 ^ 32) && decide (r.2.tx.seq ≠ r.2.tx.remoteAcked))

/-- Two packets go out, a millisecond apart. -/
def firstFlight : Stream :=
  runEvents .free [.call (.connect ⟨0, .inet⟩ 2 ⟨.inet, 1, [1, 2, 3, 4]⟩), .call (.write [[7]] false), .prepare,
    .tick 1, .call (.write [[8]] false), .prepare, .tick 10] (Udx.init .free rateConfig)

/-- One datagram acknowledges both; the second is visited last, and is the
sample. -/
theorem processAcks_rate_first : ∃ p u q m,
    processPacket .free Hook.quiet (ackUpTo 2) true firstFlight = processAcks .free Hook.quiet p u ∧
      ackedPackets Hook.quiet p u = [q, m] ∧ m.delivered = 0 ∧ SentAfter m q ∧
        (ackedStream Hook.quiet p u).1.rate = m.rate := by
  have hsummary : (ackStart .free Hook.quiet (ackUpTo 2) firstFlight).map rateSummary =
      some ([⟨0, 0, 1, true, 1⟩, ⟨1, 0, 1, true, 2⟩], ⟨1, 0, 1, true, 2⟩, true) := by decide +kernel
  obtain ⟨⟨p, u⟩, hstart, hsum⟩ := Option.map_eq_some_iff.mp hsummary
  simp only [rateSummary, Prod.mk.injEq, Bool.and_eq_true, Bool.not_eq_true', decide_eq_true_eq] at hsum
  obtain ⟨hpackets, -, ⟨hlive, hspan⟩, hout⟩ := hsum
  obtain ⟨q, l, hql, hq, hl⟩ := List.map_eq_cons_iff.mp hpackets
  obtain ⟨m, rfl, hm⟩ := List.map_eq_singleton_iff.mp hl
  have hafter : SentAfter m q := by
    have hmseq : m.seq = 1 := congrArg Rate.seq hm
    have hmtime : m.timeSent = 2 := congrArg Rate.firstSentTs hm
    have hqseq : q.seq = 0 := congrArg Rate.seq hq
    have hqtime : q.timeSent = 1 := congrArg Rate.firstSentTs hq
    unfold SentAfter
    rw [hmseq, hmtime, hqseq, hqtime]
    decide
  have hsplit : (ackedPackets Hook.quiet p u).filter Packet.stamped = [q] ++ m :: [] := by
    have hmstamp : m.deliveredTs = 1 := congrArg Rate.priorTimestamp hm
    have hqstamp : q.deliveredTs = 1 := congrArg Rate.priorTimestamp hq
    rw [hql]
    simp [Packet.stamped, hmstamp, hqstamp]
  refine ⟨p, u, q, m, ackStart_some hstart, hql, congrArg Rate.priorDelivered hm, hafter, ?_⟩
  have hcb : Layered .free Hook.quiet := .quiet
  refine (processAcks_rate_iff hcb p u hlive hspan hout hsplit fun x hx => ?_).mpr (.inr rfl)
  obtain rfl : x = q := by simpa using hx
  exact hafter

/-- The first packet was sent last, and the second is taken for the sample. -/
theorem processAcks_rate_second : ∃ s p u m q, Reach .free rateConfig s ∧
    processPacket .free Hook.quiet (ackUpTo 2) true s = processAcks .free Hook.quiet p u ∧
      ackedPackets Hook.quiet p u = [m, q] ∧
      m.stamped = true ∧ q.stamped = true ∧ SentAfter m q ∧
        (ackedStream Hook.quiet p u).1.rate ≠ m.rate := by
  have h : Reach .free rateConfig _ := Reach.runEvents .init flightEvents
  have hsummary : (ackStart .free Hook.quiet (ackUpTo 2) (runEvents .free flightEvents
      (Udx.init .free rateConfig))).map rateSummary =
        some ([⟨0, 0, 1, true, 4001⟩, ⟨1, 0, 1, true, 1⟩], ⟨1, 0, 1, true, 1⟩, true) := by decide +kernel
  obtain ⟨⟨p, u⟩, hstart, hsum⟩ := Option.map_eq_some_iff.mp hsummary
  simp only [rateSummary, Prod.mk.injEq] at hsum
  obtain ⟨hpackets, hrate, -⟩ := hsum
  obtain ⟨m, l, hml, hm, hl⟩ := List.map_eq_cons_iff.mp hpackets
  obtain ⟨q, rfl, hq⟩ := List.map_eq_singleton_iff.mp hl
  have hmstamp : m.deliveredTs = 1 := congrArg Rate.priorTimestamp hm
  have hqstamp : q.deliveredTs = 1 := congrArg Rate.priorTimestamp hq
  refine ⟨_, p, u, m, q, h, ackStart_some hstart, hml, by simp [Packet.stamped, hmstamp],
    by simp [Packet.stamped, hqstamp], ?_, ?_⟩
  · have hmseq : m.seq = 0 := congrArg Rate.seq hm
    have hmtime : m.timeSent = 4001 := congrArg Rate.firstSentTs hm
    have hqseq : q.seq = 1 := congrArg Rate.seq hq
    have hqtime : q.timeSent = 1 := congrArg Rate.firstSentTs hq
    unfold SentAfter
    rw [hmseq, hmtime, hqseq, hqtime]
    decide
  · rw [hrate, hm]
    decide

end

end Udx
