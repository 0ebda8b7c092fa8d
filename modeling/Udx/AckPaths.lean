/-
# Acknowledging as a path of moves

`process_packet` from the send window on: the cumulative ack loop, the SACK
ranges and what is settled after them are paths of ack moves and calls.

Key definitions: `AckStays`, `Settled`, `Carries`.
Key theorems: `ackLoop_path`, `sackLoop_path`, `processAck_path`.
-/
import Udx.CallPaths

namespace Udx

open Serial

variable {env : Env} {cb : Hook}

/-! ### Removing a packet -/

/-- A stream without its rate sample and congestion control. -/
def Stream.besideCc (s : Stream) : Stream :=
  (s.withCc fun cc => { delivered := cc.delivered }).withCtl fun c => { c with rs := {} }

theorem sampleRtt_besideCc (retransmitted : Bool) (rtt : ℕ) (s : Stream) :
    (sampleRtt retransmitted rtt s).besideCc = s.besideCc := by
  unfold sampleRtt updateRtt updateRto updateSrtt Stream.besideCc Stream.withCc
  split
  · rfl
  · dsimp only
    split <;> rfl

theorem rackUpdate_besideCc (p : Packet) (rtt : ℕ) (next : SeqNo) (s : Stream) :
    (rackUpdate p rtt next s).besideCc = s.besideCc := by
  unfold rackUpdate Stream.besideCc Stream.withCc
  split
  · dsimp only
    split <;> rfl
  · rfl

theorem rackDetectReordering_besideCc (retransmitted : Bool) (next : SeqNo) (s : Stream) :
    (rackDetectReordering retransmitted next s).besideCc = s.besideCc := by
  unfold rackDetectReordering Stream.besideCc Stream.withCc
  dsimp only
  split_ifs <;> rfl

theorem rackAcked_besideCc (p : Packet) (seq : SeqNo) (s : Stream) :
    (rackAcked p seq s).besideCc = s.besideCc := by
  unfold rackAcked
  dsimp only
  rw [rackDetectReordering_besideCc, rackUpdate_besideCc, sampleRtt_besideCc]

theorem udxRatePktDelivered_besideCc (p : Packet) (s : Stream) :
    (udxRatePktDelivered p s).besideCc = s.besideCc := by
  unfold udxRatePktDelivered
  split_ifs <;> rfl

/-- What `ack_packet` does to a stream before its loop, but for congestion
control. -/
theorem takeAcked_besideCc (seq : SeqNo) (k : ℕ) (sack : Bool) (s : Stream) :
    (takeAcked seq k sack s).besideCc =
      (setAckPkt k (setAcking (s.tx.pkts k).bufs none (((s.note (.reached (.ackTake k) s.toCore)).withMtu
        (Mtu.acked (s.tx.pkts k).isMtuProbe)).withTx fun tx =>
          tx.removeAcked seq k sack))).besideCc := by
  unfold takeAcked
  dsimp only
  rw [rackAcked_besideCc, udxRatePktDelivered_besideCc]

theorem removeAcked_pkts (t : Tx) (seq : SeqNo) (k : ℕ) (sack : Bool) :
    (t.removeAcked seq k sack).pkts = t.pkts := by
  unfold Tx.removeAcked
  dsimp only
  split_ifs <;> rfl

section

variable (seq : SeqNo) (k : ℕ) (sack : Bool) (s : Stream)

theorem takeAcked_tx : (takeAcked seq k sack s).tx = s.tx.removeAcked seq k sack :=
  congrArg (fun x => x.tx) (takeAcked_besideCc seq k sack s)

theorem takeAcked_st : (takeAcked seq k sack s).st = s.st :=
  congrArg (fun x => x.st) (takeAcked_besideCc seq k sack s)

theorem takeAcked_rx : (takeAcked seq k sack s).rx = s.rx :=
  congrArg (fun x => x.rx) (takeAcked_besideCc seq k sack s)

theorem takeAcked_log : (takeAcked seq k sack s).log = .reached (.ackTake k) s.toCore :: s.log :=
  congrArg Stream.log (takeAcked_besideCc seq k sack s)

theorem takeAcked_acking : (takeAcked seq k sack s).ctl.acking = (s.tx.pkts k).bufs :=
  congrArg (fun x => x.ctl.acking) (takeAcked_besideCc seq k sack s)

theorem takeAcked_ackDue : (takeAcked seq k sack s).ctl.ackDue = none :=
  congrArg (fun x => x.ctl.ackDue) (takeAcked_besideCc seq k sack s)

theorem takeAcked_ackPkt : (takeAcked seq k sack s).ctl.ackPkt = some k :=
  congrArg (fun x => x.ctl.ackPkt) (takeAcked_besideCc seq k sack s)

end

/-! ### What acknowledging leaves alone -/

/-- What the ack loops do not change. -/
structure AckStays (s t : Stream) : Prop where
  packet : t.ctl.packet = s.ctl.packet
  sacksLeft : t.ctl.sacksLeft = s.ctl.sacksLeft
  processing : t.ctl.processing = s.ctl.processing
  draining : t.ctl.draining = s.ctl.draining
  cursor : t.ctl.cursor = s.ctl.cursor
  remoteAcked : t.tx.remoteAcked = s.tx.remoteAcked
  event : t.event? = s.event?
  dead : s.st.dead = true → t.st.dead = true
  outstanding : t.st.dead = false → t.tx.span < 2 ^ 32 → s.tx.seq ≠ s.tx.remoteAcked →
    t.tx.seq ≠ t.tx.remoteAcked
  span : s.tx.span ≤ t.tx.span

namespace AckStays

variable {s t u : Stream}

theorem refl (s : Stream) : AckStays s s :=
  ⟨rfl, rfl, rfl, rfl, rfl, rfl, rfl, id, fun _ _ => id, Nat.le_refl _⟩

theorem trans (h : AckStays s t) (h' : AckStays t u) : AckStays s u := by
  refine ⟨h'.packet.trans h.packet, h'.sacksLeft.trans h.sacksLeft,
    h'.processing.trans h.processing, h'.draining.trans h.draining, h'.cursor.trans h.cursor,
    h'.remoteAcked.trans h.remoteAcked, h'.event.trans h.event, h'.dead ∘ h.dead,
    fun hu hn hs => ?_, Nat.le_trans h.span h'.span⟩
  have ht : t.st.dead = false := by
    cases hd : t.st.dead
    · rfl
    · rw [h'.dead hd] at hu
      cases hu
  exact h'.outstanding hu hn (h.outstanding ht (Nat.lt_of_le_of_lt h'.span hn) hs)

theorem keeps (h : Keeps s t) : AckStays s t :=
  ⟨h.packet, h.sacksLeft, h.processing, h.draining, h.cursor, h.remoteAcked, h.event?, h.dead,
    h.outstanding, h.span⟩

/-- A step that leaves the sequence numbers alone. -/
theorem of_eq (hc : { t.ctl with acking := [], ackDue := none, ackPkt := none, rs := {} } =
      { s.ctl with acking := [], ackDue := none, ackPkt := none, rs := {} })
    (hr : t.tx.remoteAcked = s.tx.remoteAcked) (he : t.event? = s.event?)
    (hd : t.st.dead = s.st.dead) (hs : t.tx.seq = s.tx.seq) (hn : t.tx.span = s.tx.span) :
    AckStays s t := by
  refine ⟨congrArg (fun c => c.packet) hc, congrArg (fun c => c.sacksLeft) hc,
    congrArg (fun c => c.processing) hc, congrArg (fun c => c.draining) hc,
    congrArg (fun c => c.cursor) hc, hr, he, fun h => hd ▸ h, fun _ _ h => ?_, Nat.le_of_eq hn.symm⟩
  rw [hs, hr]
  exact h

theorem live (h : AckStays s t) (ht : t.st.dead = false) : s.st.dead = false := by
  cases hd : s.st.dead
  · rfl
  · rw [h.dead hd] at ht
    cases ht

end AckStays

theorem takeAcked_stays (seq : SeqNo) (k : ℕ) (sack : Bool) (s : Stream) :
    AckStays s (takeAcked seq k sack s) := by
  have h := takeAcked_besideCc seq k sack s
  have htx := takeAcked_tx seq k sack s
  have hrm : (s.tx.removeAcked seq k sack).remoteAcked = s.tx.remoteAcked ∧
      (s.tx.removeAcked seq k sack).seq = s.tx.seq ∧
      (s.tx.removeAcked seq k sack).span = s.tx.span := by
    unfold Tx.removeAcked
    dsimp only
    split_ifs <;> exact ⟨rfl, rfl, rfl⟩
  refine .of_eq ?_ (htx ▸ hrm.1) ?_ (by rw [takeAcked_st]) (htx ▸ hrm.2.1) (htx ▸ hrm.2.2)
  · exact congrArg (fun x => { x.ctl with acking := [], ackDue := none, ackPkt := none }) h
  · exact congrArg (fun x => x.event?) h

/-! ### The slices of a packet -/

/-- No packet is being acknowledged. -/
def Unacking (s : Stream) : Prop := s.ctl.acking = [] ∧ s.ctl.ackDue = none

/-- The loop over the slices, up to where it is left. -/
structure AckedBufs (env : Env) (s t : Stream) (early : Bool) : Prop where
  path : Path env (AckMove env) s t
  stays : AckStays s t
  ackPkt : t.ctl.ackPkt = s.ctl.ackPkt
  left : early = true → t.st.dead = true
  done : early = false → Unacking t ∧ t.st.dead = s.st.dead

theorem chunkStage_stays (c : Chunk) (rest : List Chunk) (s : Stream) :
    AckStays s (chunkStage c rest s) := by
  have hcount : AckStays s (ackBytes c rest s) := by
    have hset : AckStays s (setAcking rest (some c.wbuf)
        (s.withTx fun tx => { tx with bytesAcked := tx.bytesAcked + c.len })) :=
      .of_eq rfl rfl rfl rfl rfl rfl
    unfold ackBytes
    exact hset.trans (.keeps ((Keeps.refl _).countBytes _ _ _))
  unfold chunkStage
  dsimp only
  split
  · unfold clearHighWatermark
    exact hcount.trans (.keeps (((Keeps.refl _).withWin _).announce _ _))
  · exact hcount

/-- What one slice leaves: the rest of the packet, and the write to look at. -/
theorem chunkStage_ctl (c : Chunk) (rest : List Chunk) (s : Stream) :
    (chunkStage c rest s).ctl = { s.ctl with acking := rest, ackDue := some c.wbuf } := by
  have hcount : (ackBytes c rest s).ctl =
      { s.ctl with acking := rest, ackDue := some c.wbuf } := by
    unfold ackBytes
    dsimp only
    rw [countBytes_ctl]
    rfl
  unfold chunkStage clearHighWatermark Stream.announce
  dsimp only
  split_ifs <;> exact hcount

theorem chunkStage_path (ht : Tame env cb) (c : Chunk) (rest : List Chunk) (s : Stream) :
    CallPath env (chunkStage c rest s) (drain cb (ackBytes c rest s)) := by
  unfold chunkStage drain
  dsimp only
  split
  · exact ht.invokeIf _ _ _
  · exact .refl _

theorem completeStage_stays (b : ℕ) (sack : Bool) (s : Stream) :
    AckStays s (completeStage b sack s) := by
  have hclear : AckStays s (clearAckDue s) := .of_eq rfl rfl rfl rfl rfl rfl
  unfold completeStage
  exact hclear.trans (.keeps ((Keeps.refl _).announce _ _))

theorem completeStage_ctl (b : ℕ) (sack : Bool) (s : Stream) :
    (completeStage b sack s).ctl = { s.ctl with ackDue := none } := by
  unfold completeStage Stream.announce
  dsimp only
  split <;> rfl

theorem completeStage_path (ht : Tame env cb) (b : ℕ) (sack : Bool) (s : Stream) :
    CallPath env (completeStage b sack s) (ackWrite cb b sack s) := by
  unfold completeStage ackWrite completeWrite
  exact ht.invokeIf _ _ _

theorem ackBufs_path (ht : Tame env cb) (sack : Bool) (bufs : List Chunk) {s : Stream}
    (hbufs : s.ctl.acking = bufs) (hdue : s.ctl.ackDue = none) :
    AckedBufs env s (ackBufs cb sack bufs s).1 (ackBufs cb sack bufs s).2 := by
  induction bufs generalizing s with
  | nil => exact ⟨.refl s, .refl s, rfl, (fun h => nomatch h), fun _ => ⟨⟨hbufs, hdue⟩, rfl⟩⟩
  | cons c rest ih =>
    have hchunk := chunkStage_path ht c rest s
    have hpath : Path env (AckMove env) s (drain cb (ackBytes c rest s)) :=
      (Path.single (.chunk c rest s hbufs hdue)).call hchunk
    have hstays := (chunkStage_stays c rest s).trans (.keeps hchunk.keeps)
    have hpkt : (drain cb (ackBytes c rest s)).ctl.ackPkt = s.ctl.ackPkt := by
      rw [hchunk.keeps.ackPkt, chunkStage_ctl]
    have hacking : (drain cb (ackBytes c rest s)).ctl.acking = rest := by
      rw [hchunk.keeps.acking, chunkStage_ctl]
    have hackDue : (drain cb (ackBytes c rest s)).ctl.ackDue = some c.wbuf := by
      rw [hchunk.keeps.ackDue, chunkStage_ctl]
    unfold ackBufs
    dsimp only
    by_cases hdead : (drain cb (ackBytes c rest s)).st.dead = true
    · rw [if_pos hdead]
      exact ⟨hpath, hstays, hpkt, fun _ => hdead, fun h => nomatch h⟩
    rw [if_neg hdead]
    have hlive := Bool.eq_false_iff.mpr hdead
    have hdone := completeStage_path ht c.wbuf sack (drain cb (ackBytes c rest s))
    have hpath' := (hpath.move (.complete c.wbuf sack _ hlive hackDue)).call hdone
    have hstays' := hstays.trans ((completeStage_stays c.wbuf sack _).trans (.keeps hdone.keeps))
    have hpkt' : (ackWrite cb c.wbuf sack (drain cb (ackBytes c rest s))).ctl.ackPkt =
        s.ctl.ackPkt := by
      rw [hdone.keeps.ackPkt, completeStage_ctl]
      exact hpkt
    by_cases hdead' : (ackWrite cb c.wbuf sack (drain cb (ackBytes c rest s))).st.dead = true
    · rw [if_pos hdead']
      exact ⟨hpath', hstays', hpkt', fun _ => hdead', fun h => nomatch h⟩
    rw [if_neg hdead']
    have hrest := ih (s := ackWrite cb c.wbuf sack (drain cb (ackBytes c rest s)))
      (by rw [hdone.keeps.acking, completeStage_ctl]; exact hacking)
      (by rw [hdone.keeps.ackDue, completeStage_ctl])
    have hlive' := Bool.eq_false_iff.mpr hdead'
    refine ⟨hpath'.trans hrest.path, hstays'.trans hrest.stays, hrest.ackPkt.trans hpkt',
      hrest.left, fun h => ⟨(hrest.done h).1, ?_⟩⟩
    rw [(hrest.done h).2, hlive', hstays'.live hlive']

/-! ### One packet -/

/-- The end of `ack_packet` leaves the sequence numbers alone, and says so when
the stream has ended. -/
theorem ackEnd_stays (s : Stream) : AckStays s (ackEnd s).1 := by
  unfold ackEnd
  split
  · exact .of_eq rfl rfl rfl rfl rfl rfl
  · exact .refl s

theorem afterAck_stays (r : Stream × AckResult) : AckStays r.1 (afterAck r) := by
  obtain ⟨s, r⟩ := r
  cases r
  · exact .refl s
  · exact .of_eq rfl rfl rfl rfl rfl rfl
  · exact .refl s

theorem afterAck_st (r : Stream × AckResult) : (afterAck r).st = r.1.st := by
  obtain ⟨s, r⟩ := r
  cases r <;> rfl

theorem afterAck_tx (r : Stream × AckResult) : (afterAck r).tx = r.1.tx := by
  obtain ⟨s, r⟩ := r
  cases r <;> rfl

theorem afterAck_ctl (r : Stream × AckResult) : (afterAck r).ctl = r.1.ctl := by
  obtain ⟨s, r⟩ := r
  cases r <;> rfl

theorem ackDone_stays (k : ℕ) (s : Stream) : AckStays s (ackDone k s) := by
  have hderef : AckStays s (derefPacket k s) := .of_eq rfl rfl rfl rfl rfl rfl
  unfold ackDone
  exact (hderef.trans (ackEnd_stays _)).trans (afterAck_stays _)

/-- What one packet comes to: the stream after it, counted if it was
delivered. -/
structure AckedOne (env : Env) (s t : Stream) (r : AckResult) : Prop where
  path : Path env (AckMove env) s t
  stays : AckStays s t
  stop : r = .stop → t.st.dead = true ∨ t.EndAcked ∧ Unacking t
  go : r ≠ .stop → Unacking t ∧ t.st.dead = s.st.dead

theorem ackEnd_dead (s : Stream) : (ackEnd s).1.st.dead = s.st.dead := by
  unfold ackEnd
  split <;> rfl

theorem ackEnd_ctl (s : Stream) : (ackEnd s).1.ctl = s.ctl := by
  unfold ackEnd
  split <;> rfl

theorem ackEnd_stop {s : Stream} (h : (ackEnd s).2 = .stop) : (ackEnd s).1.EndAcked := by
  unfold ackEnd at h ⊢
  split at h
  · next hc =>
    rw [if_pos hc]
    obtain ⟨-, hin, hre, -⟩ := hc
    exact ⟨rfl, List.eq_nil_of_length_eq_zero hin, List.eq_nil_of_length_eq_zero hre⟩
  · cases h

/-- From the removal of the packet to the end of `ack_packet`. -/
theorem ackFound_path (ht : Tame env cb) (seq : SeqNo) (k : ℕ) (sack : Bool) (s : Stream) :
    AckedOne env (takeAcked seq k sack s) (afterAck (ackFound cb seq k sack s))
      (ackFound cb seq k sack s).2 := by
  have hacking : (takeAcked seq k sack s).ctl.acking = ((takeAcked seq k sack s).tx.pkts k).bufs := by
    rw [takeAcked_acking, takeAcked_tx, removeAcked_pkts]
  have hbufs := ackBufs_path ht sack _ hacking (takeAcked_ackDue seq k sack s)
  unfold ackFound
  dsimp only
  generalize ackBufs cb sack ((takeAcked seq k sack s).tx.pkts k).bufs (takeAcked seq k sack s) = r
    at hbufs ⊢
  obtain ⟨t, left⟩ := r
  dsimp only at hbufs ⊢
  have hpkt : t.ctl.ackPkt = some k := hbufs.ackPkt.trans (takeAcked_ackPkt seq k sack s)
  cases left with
  | true =>
    have hdead := hbufs.left rfl
    exact ⟨hbufs.path.move (.ackDrop k t hdead),
      hbufs.stays.trans (.of_eq rfl rfl rfl rfl rfl rfl), fun _ => .inl hdead,
      fun h => absurd rfl h⟩
  | false =>
    obtain ⟨hun, hdead⟩ := hbufs.done rfl
    have hctl : (ackDone k t).ctl = t.ctl := by
      unfold ackDone
      rw [afterAck_ctl, ackEnd_ctl]
      rfl
    have hst : (ackDone k t).st = (ackEnd (derefPacket k t)).1.st := afterAck_st _
    have hun' : Unacking (ackDone k t) := by
      unfold Unacking
      rw [hctl]
      exact hun
    refine ⟨hbufs.path.move (.ackDone k t hpkt hun.1 hun.2), hbufs.stays.trans (ackDone_stays k t),
      fun h => .inr ⟨?_, hun'⟩, fun _ => ⟨hun', ?_⟩⟩
    · obtain ⟨hended, hin, hre⟩ := ackEnd_stop h
      have htx : (ackDone k t).tx = (ackEnd (derefPacket k t)).1.tx := afterAck_tx _
      exact ⟨(congrArg Status.ended hst).trans hended, (congrArg Tx.inflightQueue htx).trans hin,
        (congrArg Tx.retransmitQueue htx).trans hre⟩
    · show (ackDone k t).st.dead = _
      rw [hst, ackEnd_dead]
      exact hdead

/-! ### The loops -/

theorem setCursor_stays (c : Option SeqNo) {s t : Stream}
    (h : AckStays (setCursor c s) t) : AckStays s (setCursor s.ctl.cursor t) :=
  ⟨h.packet, h.sacksLeft, h.processing, h.draining, rfl, h.remoteAcked, h.event, h.dead,
    h.outstanding, h.span⟩

/-- What the cumulative ack loop does not change. -/
structure LoopStays (s t : Stream) : Prop where
  stays : AckStays s (setCursor s.ctl.cursor t)

theorem LoopStays.ofCursor {c : Option SeqNo} {s t : Stream} (h : AckStays (setCursor c s) t) :
    LoopStays s t := ⟨setCursor_stays c h⟩

theorem LoopStays.trans {s t u : Stream} (h : LoopStays s t) (h' : LoopStays t u) :
    LoopStays s u :=
  ⟨h'.stays.packet.trans h.stays.packet, h'.stays.sacksLeft.trans h.stays.sacksLeft,
    h'.stays.processing.trans h.stays.processing, h'.stays.draining.trans h.stays.draining, rfl,
    h'.stays.remoteAcked.trans h.stays.remoteAcked, h'.stays.event.trans h.stays.event,
    h'.stays.dead ∘ h.stays.dead, fun hu hn hs => h'.stays.outstanding hu hn
      (h.stays.outstanding (h'.stays.live hu) (Nat.lt_of_le_of_lt h'.stays.span hn) hs),
    Nat.le_trans h.stays.span h'.stays.span⟩

theorem AckStays.withTx {f : Tx → Tx} (s : Stream) (hr : (f s.tx).remoteAcked = s.tx.remoteAcked)
    (hs : (f s.tx).seq = s.tx.seq) (hn : (f s.tx).span = s.tx.span) :
    AckStays s (s.withTx f) := .of_eq rfl hr rfl rfl hs hn

theorem ackAbsent_stays (sack : Bool) (s : Stream) : AckStays s (ackAbsent sack s) := by
  have hcheck : AckStays s (s.check .cirbufNull (s.tx.outgoingLive = true)) :=
    .keeps ((Keeps.refl _).check _ _)
  unfold ackAbsent ackMissing
  split
  · exact hcheck
  · exact hcheck.trans (.withTx _ rfl rfl rfl)

theorem ackAbsent_ctl (sack : Bool) (s : Stream) : (ackAbsent sack s).ctl = s.ctl := by
  unfold ackAbsent ackMissing Stream.withTx
  split <;> simp

theorem ackAbsent_st (sack : Bool) (s : Stream) : (ackAbsent sack s).st = s.st := by
  unfold ackAbsent ackMissing Stream.withTx
  split <;> simp

/-- One round of the cumulative ack loop. -/
theorem ackPacket_path (ht : Tame env cb) {p : RxPacket} {c : SeqNo} {s : Stream}
    (hp : s.ctl.packet = some p) (hdead : s.st.dead = false) (hc : s.ctl.cursor = some c)
    (hlt : seqCompare c p.h.ack < 0) (hun : Unacking s) :
    let r := ackPacket cb c false (setCursor (some (c + 1)) s)
    Path env (AckMove env) s (afterAck r) ∧ LoopStays s (afterAck r) ∧
      (afterAck r).ctl.cursor = some (c + 1) ∧
      (r.2 = .stop → (afterAck r).st.dead = true ∨ (afterAck r).EndAcked ∧
        Unacking (afterAck r)) ∧
      (r.2 ≠ .stop → Unacking (afterAck r) ∧ (afterAck r).st.dead = false) := by
  have hcheck : AckStays (setCursor (some (c + 1)) s) ((setCursor (some (c + 1)) s).check
      .cirbufNull (s.tx.outgoingLive = true)) := .keeps ((Keeps.refl _).check _ _)
  unfold ackPacket
  dsimp only
  rw [Stream.check_tx, show (setCursor (some (c + 1)) s).tx = s.tx from rfl]
  cases hk : s.tx.outgoing c with
  | none =>
    dsimp only
    have hctl := ackAbsent_ctl false (setCursor (some (c + 1)) s)
    have hst := ackAbsent_st false (setCursor (some (c + 1)) s)
    have hstays := ackAbsent_stays false (setCursor (some (c + 1)) s)
    refine ⟨.single (.ackAbsent p c s hp hdead hc hlt hk), .ofCursor (c := some (c + 1)) hstays,
      congrArg (fun c => c.cursor) hctl, (fun h => nomatch h), fun _ => ⟨⟨?_, ?_⟩, ?_⟩⟩
    · exact (congrArg (fun c => c.acking) hctl).trans hun.1
    · exact (congrArg (fun c => c.ackDue) hctl).trans hun.2
    · exact (congrArg (fun st => st.dead) hst).trans hdead
  | some k =>
    have hfound := ackFound_path ht c k false ((setCursor (some (c + 1)) s).check
      .cirbufNull (s.tx.outgoingLive = true))
    have htake := hcheck.trans (takeAcked_stays c k false _)
    have hst := takeAcked_st c k false ((setCursor (some (c + 1)) s).check
      .cirbufNull (s.tx.outgoingLive = true))
    have hstays := htake.trans hfound.stays
    refine ⟨(Path.single (.ackTake p c k s hp hdead hc hlt hk hun)).trans hfound.path,
      .ofCursor hstays, hstays.cursor, hfound.stop, fun h => ⟨(hfound.go h).1, ?_⟩⟩
    rw [(hfound.go h).2, hst, Stream.check_st]
    exact hdead

theorem ackLoop_succ {ack : SeqNo} {n : ℕ} {c : SeqNo} {s : Stream}
    (hlt : seqCompare c ack < 0) :
    let r := ackPacket cb c false (setCursor (some (c + 1)) s)
    ackLoop cb ack (n + 1) c s =
      if r.2 = .stop then (afterAck r, true) else ackLoop cb ack n (c + 1) (afterAck r) := by
  dsimp only
  rw [ackLoop, if_pos hlt]
  generalize ackPacket cb c false (setCursor (some (c + 1)) s) = r
  obtain ⟨t, r⟩ := r
  cases r <;> rfl

/-- What the cumulative ack loop comes to. -/
structure AckedAll (env : Env) (p : RxPacket) (s t : Stream) (stopped : Bool) : Prop where
  path : Path env (AckMove env) s t
  stays : LoopStays s t
  stop : stopped = true → (t.st.dead = true ∨ t.EndAcked ∧ Unacking t) ∧
    t.ctl.cursor.isSome = true
  go : stopped = false → Unacking t ∧ t.st.dead = false ∧
    ∃ c, t.ctl.cursor = some c ∧ ¬ seqCompare c p.h.ack < 0

theorem ackLoop_path (ht : Tame env cb) {p : RxPacket} (n : ℕ) {c : SeqNo} {s : Stream}
    (hp : s.ctl.packet = some p) (hdead : s.st.dead = false) (hc : s.ctl.cursor = some c)
    (hun : Unacking s) (hn : n = (p.h.ack - c).toNat) :
    AckedAll env p s (ackLoop cb p.h.ack n c s).1 (ackLoop cb p.h.ack n c s).2 := by
  have hrefl : ∀ x : Stream, LoopStays x x := fun x => .ofCursor (c := x.ctl.cursor) (.refl _)
  induction n generalizing c s with
  | zero =>
    have hend : p.h.ack = c := by bv_omega
    refine ⟨.refl s, hrefl s, (fun h => nomatch h), fun _ => ⟨hun, hdead, c, hc, ?_⟩⟩
    rw [hend]
    simp [seqCompare, seqDiff]
  | succ n ih =>
    by_cases hlt : seqCompare c p.h.ack < 0
    · obtain ⟨hpath, hstays, hcur, hstop, hgo⟩ := ackPacket_path ht hp hdead hc hlt hun
      rw [ackLoop_succ hlt]
      split
      · next h => exact ⟨hpath, hstays, fun _ => ⟨hstop h, by rw [hcur]; rfl⟩, fun h => nomatch h⟩
      · next h =>
        obtain ⟨hun', hdead'⟩ := hgo h
        have hrest := ih (s := afterAck (ackPacket cb c false (setCursor (some (c + 1)) s)))
          (hstays.stays.packet.trans hp) hdead' hcur hun' (by bv_omega)
        exact ⟨hpath.trans hrest.path, hstays.trans hrest.stays, hrest.stop, hrest.go⟩
    · rw [ackLoop, if_neg hlt]
      exact ⟨.refl s, hrefl s, (fun h => nomatch h), fun _ => ⟨hun, hdead, c, hc, hlt⟩⟩

/-- No packet is being acknowledged, or it does not matter any more. -/
def Loose (s : Stream) : Prop := s.st.dead = true ∨ Unacking s

/-- A SACK range goes on where a callback has destroyed the stream: of the
packet it takes one slice is counted. -/
theorem sackDead_path (ht : Tame env cb) {c : SeqNo} {k : ℕ} {s : Stream} (hcur : s.ctl.cursor = none)
    (hk : s.tx.outgoing c = some k) (hdead : s.st.dead = true) :
    Path env (AckMove env) s
      (afterAck (ackFound cb c k true (s.check .cirbufNull (s.tx.outgoingLive = true)))) := by
  have hfound := ackFound_path ht c k true (s.check .cirbufNull (s.tx.outgoingLive = true))
  have hpkts : ((ackTake c k true s).tx.pkts k).bufs = (s.tx.pkts k).bufs := by
    unfold ackTake
    rw [takeAcked_tx, removeAcked_pkts, Stream.check_tx]
  have hst : (ackTake c k true s).st = s.st := by
    unfold ackTake
    rw [takeAcked_st, Stream.check_st]
  cases hb : (s.tx.pkts k).bufs with
  | nil => exact (Path.single (.sackTake c k s hcur hk (.inr hb))).trans hfound.path
  | cons x rest =>
    have hchunk := chunkStage_path ht x rest (ackTake c k true s)
    have hdead' : (drain cb (ackBytes x rest (ackTake c k true s))).st.dead = true :=
      hchunk.keeps.dead ((chunkStage_stays x rest _).dead (by rw [hst]; exact hdead))
    have hleft : ackFound cb c k true (s.check .cirbufNull (s.tx.outgoingLive = true)) =
        (derefPacket k (drain cb (ackBytes x rest (ackTake c k true s))), .stop) := by
      unfold ackFound
      dsimp only
      rw [show takeAcked c k true (s.check .cirbufNull (s.tx.outgoingLive = true)) =
        ackTake c k true s from rfl, hpkts, hb]
      unfold ackBufs
      dsimp only
      rw [if_pos hdead']
      rfl
    rw [hleft]
    exact ((Path.single (.sackDead c k x rest s hcur hk hdead hb)).call hchunk).move
      (.ackDrop k _ hdead')

/-- One packet of a SACK range. -/
theorem sackPacket_path (ht : Tame env cb) {c : SeqNo} {s : Stream}
    (hcur : s.ctl.cursor = none) (hun : Loose s) :
    let r := ackPacket cb c true s
    Path env (AckMove env) s (afterAck r) ∧ AckStays s (afterAck r) ∧ Loose (afterAck r) := by
  have hcheck : AckStays s (s.check .cirbufNull (s.tx.outgoingLive = true)) :=
    .keeps ((Keeps.refl _).check _ _)
  unfold ackPacket
  dsimp only
  rw [Stream.check_tx]
  cases hk : s.tx.outgoing c with
  | none =>
    refine ⟨.single (.sackAbsent c s hcur hk), hcheck, ?_⟩
    unfold Loose Unacking at hun ⊢
    simpa [afterAck, ackMissing] using hun
  | some k =>
    have hfound := ackFound_path ht c k true (s.check .cirbufNull (s.tx.outgoingLive = true))
    have hstays := (hcheck.trans (takeAcked_stays c k true _)).trans hfound.stays
    refine ⟨?_, hstays, ?_⟩
    · by_cases hdead : s.st.dead = true
      · exact sackDead_path ht hcur hk hdead
      · have hlive := Bool.eq_false_iff.mpr hdead
        exact (Path.single (.sackTake c k s hcur hk (.inl ⟨hlive, hun.resolve_left hdead⟩))).trans
          hfound.path
    by_cases h : (ackFound cb c k true (s.check .cirbufNull (s.tx.outgoingLive = true))).2 = .stop
    · rcases hfound.stop h with hd | ⟨-, hu⟩
      · exact .inl hd
      · exact .inr hu
    · exact .inr (hfound.go h).1

theorem sackRange_succ (n : ℕ) (c : SeqNo) (s : Stream) :
    let r := ackPacket cb c true s
    sackRange cb (n + 1) c s =
      if r.2 = .stop then afterAck r else sackRange cb n (c + 1) (afterAck r) := by
  dsimp only
  rw [sackRange]
  generalize ackPacket cb c true s = r
  obtain ⟨t, r⟩ := r
  cases r <;> rfl

theorem sackRange_path (ht : Tame env cb) (n : ℕ) (c : SeqNo) {s : Stream}
    (hcur : s.ctl.cursor = none) (hun : Loose s) :
    Path env (AckMove env) s (sackRange cb n c s) ∧ AckStays s (sackRange cb n c s) ∧
      Loose (sackRange cb n c s) := by
  induction n generalizing c s with
  | zero => exact ⟨.refl s, .refl s, hun⟩
  | succ n ih =>
    obtain ⟨hpath, hstays, hun'⟩ := sackPacket_path ht (c := c) hcur hun
    rw [sackRange_succ]
    split
    · exact ⟨hpath, hstays, hun'⟩
    · obtain ⟨hp, hs, hu⟩ := ih (c + 1) (hstays.cursor.trans hcur) hun'
      exact ⟨hpath.trans hp, hstays.trans hs, hu⟩

/-- What the SACK ranges do not change. -/
structure SackStays (s t : Stream) : Prop where
  stays : AckStays s (setSacksLeft s.ctl.sacksLeft t)

theorem SackStays.ofLeft {l : List (SeqNo × SeqNo)} {s t : Stream}
    (h : AckStays (setSacksLeft l s) t) : SackStays s t :=
  ⟨h.packet, rfl, h.processing, h.draining, h.cursor, h.remoteAcked, h.event, h.dead,
    h.outstanding, h.span⟩

theorem SackStays.trans {s t u : Stream} (h : SackStays s t) (h' : SackStays t u) :
    SackStays s u :=
  ⟨h'.stays.packet.trans h.stays.packet, rfl,
    h'.stays.processing.trans h.stays.processing, h'.stays.draining.trans h.stays.draining,
    h'.stays.cursor.trans h.stays.cursor, h'.stays.remoteAcked.trans h.stays.remoteAcked,
    h'.stays.event.trans h.stays.event, h'.stays.dead ∘ h.stays.dead,
    fun hu hn hs => h'.stays.outstanding hu hn
      (h.stays.outstanding (h'.stays.live hu) (Nat.lt_of_le_of_lt h'.stays.span hn) hs),
    Nat.le_trans h.stays.span h'.stays.span⟩

theorem sackLoop_path (ht : Tame env cb) (sacks : List (SeqNo × SeqNo)) {s : Stream}
    (hleft : s.ctl.sacksLeft = sacks) (hcur : s.ctl.cursor = none) (hun : Loose s) :
    Path env (AckMove env) s (sackLoop cb sacks s) ∧ SackStays s (sackLoop cb sacks s) ∧
      Loose (sackLoop cb sacks s) := by
  induction sacks generalizing s with
  | nil => exact ⟨.refl s, .ofLeft (l := s.ctl.sacksLeft) (.refl _), hun⟩
  | cons r rest ih =>
    have hnext : Path env (AckMove env) s (setSacksLeft rest s) :=
      .single (.sackNext rest r s hleft hcur)
    unfold sackLoop
    dsimp only
    split
    · obtain ⟨hpath, hstays, hun'⟩ := sackRange_path ht (r.2 - r.1).toNat r.1
        (s := setSacksLeft rest s) hcur hun
      obtain ⟨hp, hs, hu⟩ := ih hstays.sacksLeft (hstays.cursor.trans hcur) hun'
      exact ⟨(hnext.trans hpath).trans hp, (SackStays.ofLeft hstays).trans hs, hu⟩
    · obtain ⟨hp, hs, hu⟩ := ih (s := setSacksLeft rest s) rfl hcur hun
      exact ⟨hnext.trans hp, (SackStays.ofLeft (l := rest) (.refl _)).trans hs, hu⟩

/-- With nothing outstanding no SACK range is valid. -/
theorem udxSackIsValid_idle (start stop : SeqNo) (rest : List (SeqNo × SeqNo)) {s : Stream}
    (hs : s.tx.remoteAcked = s.tx.seq) : udxSackIsValid start stop (setSacksLeft rest s) = false := by
  unfold udxSackIsValid setSacksLeft Stream.withCtl
  dsimp only
  rw [hs]
  split_ifs with h1 h2 h3 h4
  all_goals first | rfl | omega

theorem sackLoop_idle (sacks : List (SeqNo × SeqNo)) {s : Stream}
    (hs : s.tx.remoteAcked = s.tx.seq) (hleft : s.ctl.sacksLeft = sacks) :
    sackLoop cb sacks s = setSacksLeft [] s := by
  induction sacks generalizing s with
  | nil =>
    unfold sackLoop setSacksLeft Stream.withCtl
    rw [← hleft]
  | cons r rest ih =>
    unfold sackLoop
    dsimp only
    rw [udxSackIsValid_idle r.1 r.2 rest hs, ih (s := setSacksLeft rest s) hs rfl]
    rfl

/-! ### The end of process_packet -/

/-- Nothing of `process_packet` is left to do. -/
structure Settled (s : Stream) : Prop where
  cursor : s.ctl.cursor = none
  idle : s.st.dead = true ∨ s.ctl.acking = [] ∧ s.ctl.ackDue = none ∧ s.ctl.draining = [] ∧
    (s.ctl.processing = false ∨ s.st.ended = true)

theorem Settled.keeps {s t : Stream} (h : Settled s) (hk : Keeps s t) : Settled t := by
  refine ⟨hk.cursor.trans h.cursor, ?_⟩
  rcases h.idle with hd | hi
  · exact .inl (hk.dead hd)
  · right
    rw [hk.acking, hk.ackDue, hk.draining, hk.processing, hk.ended]
    exact hi

/-- The locals of `process_packet`, but for the rate sample. -/
def Control.besideRs (c : Control) : Control := { c with rs := {} }

theorem udxRateGen_ctl (delivered : ℕ) (lost : ℤ) (s : Stream) :
    (udxRateGen delivered lost s).ctl.besideRs = s.ctl.besideRs ∧
      (udxRateGen delivered lost s).st = s.st := by
  obtain ⟨rs, limited, ts, rate, interval, sampled, hgen⟩ := udxRateGen_eq delivered lost s
  rw [hgen]
  exact ⟨rfl, rfl⟩

theorem finishPacket_ctl (env : Env) (p : RxPacket) (delivered : ℕ) (s : Stream) :
    (finishPacket env p delivered s).ctl.besideRs = { s.ctl.besideRs with processing := false } ∧
      (finishPacket env p delivered s).st = s.st := by
  have hbbr : (bbrPacket env p delivered s).ctl.besideRs = s.ctl.besideRs ∧
      (bbrPacket env p delivered s).st = s.st := by
    unfold bbrPacket
    split
    · obtain ⟨hctl, hst⟩ := udxRateGen_ctl delivered (seqDiff s.cc.lost p.lost) s
      have hmain := (Sends.refl (udxRateGen delivered (seqDiff s.cc.lost p.lost) s)).bbrMain env
        (udxRateGen delivered (seqDiff s.cc.lost p.lost) s).ctl.rs
      dsimp only
      rw [hmain.ctl, hmain.st]
      exact ⟨hctl, hst⟩
    · exact ⟨rfl, rfl⟩
  have hsend := (Sends.refl (bbrPacket env p delivered s)).sendPackets env
  unfold finishPacket
  refine ⟨?_, ?_⟩
  · show { (sendPackets env (bbrPacket env p delivered s)).ctl.besideRs with processing := false } = _
    rw [hsend.ctl, hbbr.1]
  · show (sendPackets env (bbrPacket env p delivered s)).st = _
    rw [hsend.st, hbbr.2]

/-- What is settled after the acknowledgements: the answer, and the end. -/
theorem answerPacket_path (ht : Tame env cb) {p : RxPacket} {s : Stream}
    (hp : s.ctl.packet = some p) (hdead : s.st.dead = false) (hcur : s.ctl.cursor = none)
    (hun : Unacking s) (hdrain : s.ctl.draining = []) {delivered : ℕ}
    (hdel : delivered = deliveredBy p s) :
    Path env (AckMove env) s (answerPacket env cb p delivered s) ∧
      Settled (answerPacket env cb p delivered s) := by
  have hfinish : ∀ {x : Stream}, Keeps s x → x.st.dead = false →
      Path env (AckMove env) x (finishPacket env p delivered x) ∧
        Settled (finishPacket env p delivered x) := by
    intro x hk hlive
    obtain ⟨hctl, hst⟩ := finishPacket_ctl env p delivered x
    refine ⟨.single (.finishPacket p delivered x (hk.packet.trans hp) hlive
      (hk.cursor.trans hcur) ?_), ?_, .inr ⟨?_, ?_, ?_, .inl ?_⟩⟩
    · rw [hdel]
      unfold deliveredBy
      rw [hk.delivered]
    · exact (congrArg (fun c => c.cursor) hctl).trans (hk.cursor.trans hcur)
    · exact (congrArg (fun c => c.acking) hctl).trans (hk.acking.trans hun.1)
    · exact (congrArg (fun c => c.ackDue) hctl).trans (hk.ackDue.trans hun.2)
    · exact (congrArg (fun c => c.draining) hctl).trans (hk.draining.trans hdrain)
    · exact congrArg (fun c => c.processing) hctl
  have hack := sendAck_path ht s
  unfold answerPacket
  dsimp only
  split_ifs with htype hend
  · exact ⟨.ofCall hack, hack.keeps.cursor.trans hcur, .inl hend⟩
  · obtain ⟨hpath, hset⟩ := hfinish hack.keeps (Bool.eq_false_iff.mpr hend)
    exact ⟨(Path.ofCall hack).trans hpath, hset⟩
  · exact hfinish (.refl s) hdead

theorem processEnded_path (ht : Tame env cb) {p : RxPacket} {t : Stream}
    (hp : t.ctl.packet = some p) (hc : t.ctl.cursor.isSome = true) (hdrain : t.ctl.draining = [])
    (hend : t.st.dead = true ∨ t.EndAcked ∧ Unacking t) :
    Path env (AckMove env) t (processEnded env cb (advanceRemoteAcked p t)) ∧
      Settled (processEnded env cb (advanceRemoteAcked p t)) := by
  have hadv : (advanceRemoteAcked p t).ctl = { t.ctl with cursor := none } ∧
      (advanceRemoteAcked p t).st = t.st := by
    unfold advanceRemoteAcked setRemoteAcked
    dsimp only
    split_ifs <;> exact ⟨rfl, rfl⟩
  unfold processEnded
  dsimp only
  by_cases hdead : t.st.dead = true
  · rw [if_pos (by rw [hadv.2]; exact hdead)]
    refine ⟨.single (.advanceDead p t hp hc hdead), congrArg (fun c => c.cursor) hadv.1, .inl ?_⟩
    rw [hadv.2]
    exact hdead
  obtain ⟨hended, hun⟩ := hend.resolve_left hdead
  rw [if_neg (by rw [hadv.2]; exact hdead)]
  have hmove : Path env (AckMove env) _ _ := .single
    (.advanceEnded p t hp hc (Bool.eq_false_iff.mpr hdead) hended hun)
  have htimer := (Sends.refl (advanceRemoteAcked p t)).timerEnded
  have hset : Settled (timerEnded (advanceRemoteAcked p t)) := by
    refine ⟨?_, .inr ⟨?_, ?_, ?_, .inr ?_⟩⟩
    · rw [htimer.ctl, hadv.1]
    · rw [htimer.ctl, hadv.1]
      exact hun.1
    · rw [htimer.ctl, hadv.1]
      exact hun.2
    · rw [htimer.ctl, hadv.1]
      exact hdrain
    · rw [htimer.st, hadv.2]
      exact hended.1
  split
  · next hall =>
    have hclose := closeStream_path ht .none _ (.inr (.inl hall))
    exact ⟨hmove.call hclose, hset.keeps hclose.keeps⟩
  · have hack := sendAck_path ht (timerEnded (advanceRemoteAcked p t))
    exact ⟨hmove.call hack, hset.keeps hack.keeps⟩

theorem afterSacks_path (ht : Tame env cb) {p : RxPacket} {t : Stream}
    (hp : t.ctl.packet = some p) (hdrain : t.ctl.draining = []) (hproc : t.ctl.processing = true)
    (hdead : t.st.dead = false) (hun : Unacking t) (hleft : t.ctl.sacksLeft = p.sacks)
    {c : SeqNo} (hc : t.ctl.cursor = some c) (hend : ¬ seqCompare c p.h.ack < 0) :
    let u := sackLoop cb p.sacks (advanceRemoteAcked p t)
    Path env (AckMove env) t (afterSacks env cb p u) ∧ Settled (afterSacks env cb p u) := by
  have hadv : (advanceRemoteAcked p t).ctl = { t.ctl with cursor := none } ∧
      (advanceRemoteAcked p t).st = t.st ∧ (advanceRemoteAcked p t).cc = t.cc ∧
      (advanceRemoteAcked p t).tx.seq = t.tx.seq := by
    unfold advanceRemoteAcked setRemoteAcked
    dsimp only
    split_ifs <;> exact ⟨rfl, rfl, rfl, rfl⟩
  obtain ⟨hctl, hst, hcc, hseq⟩ := hadv
  -- from the settled timers on, both ways to get there are the same
  have hanswer : ∀ {x : Stream}, x.ctl.packet = some p → x.st.dead = false →
      x.ctl.cursor = none → Unacking x → x.ctl.draining = [] →
      Path env (AckMove env) (settleAcks env p (deliveredBy p x) x)
        (answerPacket env cb p (deliveredBy p x) (settleAcks env p (deliveredBy p x) x)) ∧
      Settled (answerPacket env cb p (deliveredBy p x) (settleAcks env p (deliveredBy p x) x)) := by
    intro x hp hdead hcur hun hdrain
    have hsettle := (Sends.refl x).settleAcks env p (deliveredBy p x)
    refine answerPacket_path ht ?_ ?_ ?_ ?_ ?_ ?_
    · rw [hsettle.ctl]; exact hp
    · rw [hsettle.st]; exact hdead
    · rw [hsettle.ctl]; exact hcur
    · unfold Unacking
      rw [hsettle.ctl]; exact hun
    · rw [hsettle.ctl]; exact hdrain
    · exact (congrArg (fun d => (d - p.delivered).toNat) hsettle.delivered).symm
  have hpacket : (advanceRemoteAcked p t).ctl.packet = some p := by rw [hctl]; exact hp
  have hlive : (advanceRemoteAcked p t).st.dead = false := by rw [hst]; exact hdead
  have hcur : (advanceRemoteAcked p t).ctl.cursor = none := by rw [hctl]
  have hun' : Unacking (advanceRemoteAcked p t) := by
    unfold Unacking
    rw [hctl]
    exact hun
  have hdrain' : (advanceRemoteAcked p t).ctl.draining = [] := by rw [hctl]; exact hdrain
  have hleft' : (advanceRemoteAcked p t).ctl.sacksLeft = p.sacks := by rw [hctl]; exact hleft
  dsimp only
  unfold afterSacks
  by_cases hout : (advanceRemoteAcked p t).tx.remoteAcked = t.tx.seq
  · rw [sackLoop_idle p.sacks (hout.trans hseq.symm) hleft', if_neg (by
      show ¬ (advanceRemoteAcked p t).st.dead = true
      rw [hlive]; simp)]
    have hsame : deliveredBy p (setSacksLeft [] (advanceRemoteAcked p t)) = deliveredBy p t := by
      unfold deliveredBy
      show ((advanceRemoteAcked p t).cc.delivered - p.delivered).toNat = _
      rw [hcc]
    have hmove : Path env (AckMove env) _ _ := .single
      (.advanceAll p c t hp hc hend hdead hun hout)
    rw [← hsame] at hmove
    obtain ⟨hpath, hset⟩ := hanswer (x := setSacksLeft [] (advanceRemoteAcked p t)) hpacket hlive
      hcur hun' hdrain'
    exact ⟨hmove.trans hpath, hset⟩
  · have hmove : Path env (AckMove env) _ _ := .single
      (.advance p c t hp hc hend hdead hun hout)
    obtain ⟨hpath, hstays, hloose⟩ := sackLoop_path ht p.sacks hleft' hcur (.inr hun')
    generalize sackLoop cb p.sacks (advanceRemoteAcked p t) = u at hpath hstays hloose ⊢
    have hcur' : u.ctl.cursor = none := hstays.stays.cursor.trans hcur
    split
    · next hd => exact ⟨hmove.trans hpath, hcur', .inl hd⟩
    · next hd =>
      have hlive' : u.st.dead = false := Bool.eq_false_iff.mpr hd
      have hun'' : Unacking u := hloose.resolve_left hd
      have hpacket' : u.ctl.packet = some p := hstays.stays.packet.trans hpacket
      have hproc' : u.ctl.processing = true := by
        refine hstays.stays.processing.trans ?_
        rw [hctl]
        exact hproc
      have hout' : u.tx.span < 2 ^ 32 → u.tx.seq ≠ u.tx.remoteAcked := fun hn =>
        hstays.stays.outstanding hlive' hn fun h => hout (h.symm.trans hseq)
      have hdrain'' : u.ctl.draining = [] := hstays.stays.draining.trans hdrain'
      have hsettle := (hmove.trans hpath).move
        (.settle p u hpacket' hlive' hproc' hcur' hun'' hout')
      obtain ⟨hpath', hset⟩ := hanswer hpacket' hlive' hcur' hun'' hdrain''
      exact ⟨hsettle.trans hpath', hset⟩

end Udx
