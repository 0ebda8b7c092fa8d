/-
# The keepalive timer

While the keepalive timer is pending the stream has a keepalive timeout and
nothing outstanding, unless one of four calls or events found it pending:
`udx_stream_set_keepalive` with 0, which leaves the timer as it is,
`udx_stream_destroy`, whose packet takes a sequence number, a relayed datagram
that moves `seq`, or the keepalive of `udx_stream_connect`, which is started
over whatever the EOF callback has sent.

Key definitions: `Rests`, `Tended`, `Undisturbed`, `KeptAlive`.
Key theorems: `Atom.tended`, `Reach.keptAlive`.
-/
import Udx.Logs

namespace Udx

open Serial

/-! ### What a step leaves alone -/

/-- A step that moves no timer and no sequence number. -/
structure Rests (s t : Stream) : Prop where
  tm : t.tm = s.tm
  seq : t.tx.seq = s.tx.seq
  remoteAcked : t.tx.remoteAcked = s.tx.remoteAcked
  packet : t.ctl.packet = s.ctl.packet
  processing : t.ctl.processing = s.ctl.processing
  counting : t.ctl.cursor.isSome = s.ctl.cursor.isSome

namespace Rests

variable {s t u : Stream}

theorem refl (s : Stream) : Rests s s := ⟨rfl, rfl, rfl, rfl, rfl, rfl⟩

theorem trans (h : Rests s t) (h' : Rests t u) : Rests s u :=
  ⟨h'.tm.trans h.tm, h'.seq.trans h.seq, h'.remoteAcked.trans h.remoteAcked,
    h'.packet.trans h.packet, h'.processing.trans h.processing, h'.counting.trans h.counting⟩

theorem of_core (h : t.toCore = s.toCore) : Rests s t := by
  refine ⟨?_, ?_, ?_, ?_, ?_, ?_⟩ <;> rw [h]

theorem of_besideIo {io : Io} (h : t.toCore = { s.toCore with io := io }) : Rests s t :=
  ⟨(congrArg Core.tm h :), (congrArg (fun c => c.tx.seq) h :),
    (congrArg (fun c => c.tx.remoteAcked) h :), (congrArg (fun c => c.ctl.packet) h :),
    (congrArg (fun c => c.ctl.processing) h :), (congrArg (fun c => c.ctl.cursor.isSome) h :)⟩

theorem calm (h : Calm s t) : Rests s t :=
  ⟨h.tm, congrArg Tx.seq h.tx, congrArg Tx.remoteAcked h.tx, h.packet, h.processing,
    congrArg Option.isSome h.cursor⟩

/-- What an API call that starts no timer and numbers no packet is. -/
theorem keeps (h : Keeps s t) (ht : t.tm = s.tm) (hs : t.tx.seq = s.tx.seq) : Rests s t :=
  ⟨ht, hs, h.remoteAcked, h.packet, h.processing, congrArg Option.isSome h.cursor⟩

end Rests

theorem removeAcked_numbers (t : Tx) (seq : SeqNo) (k : ℕ) (sack : Bool) :
    (t.removeAcked seq k sack).seq = t.seq ∧
      (t.removeAcked seq k sack).remoteAcked = t.remoteAcked := by
  unfold Tx.removeAcked
  dsimp only
  split_ifs <;> exact ⟨rfl, rfl⟩

theorem ackTake_rests (seq : SeqNo) (k : ℕ) (sack : Bool) (s : Stream) :
    Rests s (ackTake seq k sack s) := by
  have hcore := Stream.check_core .cirbufNull (s.tx.outgoingLive = true) s
  unfold ackTake
  generalize s.check .cirbufNull (s.tx.outgoingLive = true) = x at hcore
  have hx : Rests s x := .of_core hcore
  have hbeside := takeAcked_besideCc seq k sack x
  have htx := takeAcked_tx seq k sack x
  have hnum := removeAcked_numbers x.tx seq k sack
  refine hx.trans ⟨(congrArg (fun y => y.tm) hbeside :), ?_, ?_,
    (congrArg (fun y => y.ctl.packet) hbeside :), (congrArg (fun y => y.ctl.processing) hbeside :),
    (congrArg (fun y => y.ctl.cursor.isSome) hbeside :)⟩
  · rw [htx]
    exact hnum.1
  · rw [htx]
    exact hnum.2

theorem countBytes_rests (b bytes : ℕ) (cancelled : Bool) (s : Stream) :
    Rests s (countBytes b bytes cancelled s) := by
  have htm : (countBytes b bytes cancelled s).tm = s.tm := by
    unfold countBytes checkBytes
    dsimp only [Stream.withTx]
    split <;> simp
  refine .keeps ((Keeps.refl s).countBytes b bytes cancelled) htm ?_
  rw [countBytes_tx]
  rfl

theorem ackBytes_rests (c : Chunk) (rest : List Chunk) (s : Stream) : Rests s (ackBytes c rest s) := by
  have hset : Rests s (setAcking rest (some c.wbuf)
      (s.withTx fun tx => { tx with bytesAcked := tx.bytesAcked + c.len })) :=
    ⟨rfl, rfl, rfl, rfl, rfl, rfl⟩
  exact hset.trans (countBytes_rests ..)

theorem announce_rests (on : Bool) (c : Callback) (s : Stream) : Rests s (s.announce on c) := by
  unfold Stream.announce
  split <;> exact ⟨rfl, rfl, rfl, rfl, rfl, rfl⟩

theorem connectBind_rests (env : Env) (socket : Socket) (id : SeqNo) (addr : SockAddr) (s : Stream) :
    Rests s (connectBind env socket id addr s).1 := by
  obtain ⟨htx, htm, -, -⟩ := connectBind_found env socket id addr s
  exact .keeps ((Keeps.refl s).connectBind env socket id addr) htm (congrArg Tx.seq htx)

theorem closeStart_rests (env : Env) (err : CloseErr) (s : Stream) :
    Rests s (closeStart env err s) := by
  have hdead : (markDead (s.check .closeTwice (s.st.closed = false))).toCore = s.toCore := by
    rw [markDead_core, Stream.check_core]
  unfold closeStart closeBegin setClosed
  dsimp only
  generalize markDead (s.check .closeTwice (s.st.closed = false)) = x at hdead
  have hx : Rests s x := .of_core hdead
  have hclosed : Rests s (x.withSt fun st => { st with closed := true, connected := false }) :=
    hx.trans ⟨rfl, rfl, rfl, rfl, rfl, rfl⟩
  split
  · refine Rests.trans ?_ (announce_rests _ _ _)
    unfold streamTimewait
    exact hclosed.trans ⟨rfl, rfl, rfl, rfl, rfl, rfl⟩
  · exact hclosed.trans (announce_rests _ _ _)

theorem fillSlice_rests (b : ℕ) (s : Stream) : Rests s (fillSlice b s) := by
  obtain ⟨f, w, c, h, n, hcore⟩ := fillSlice_core b s
  exact ⟨(congrArg Core.tm hcore :), (congrArg (fun x => x.tx.seq) hcore :),
    (congrArg (fun x => x.tx.remoteAcked) hcore :), (congrArg (fun x => x.ctl.packet) hcore :),
    (congrArg (fun x => x.ctl.processing) hcore :), (congrArg (fun x => x.ctl.cursor.isSome) hcore :)⟩

/-! ### The invariant -/

/-- What is so whenever the keepalive timer may fire: a timer that runs is the
one that is pending, and an ack that moves `remote_acked` finds something
outstanding. -/
structure Tended (s : Stream) : Prop where
  armed : ∀ x due, s.tm.timer = some (x, due) → s.tm.pendingTimer = x
  idle : s.tm.pendingTimer = .keepalive →
    0 < s.tm.keepaliveTimeoutMs ∧ s.tx.seq = s.tx.remoteAcked
  advances : ∀ p, s.ctl.packet = some p → p.ackAdvanced = true →
    seqDiff p.h.ack p.priorRemoteAcked > 0
  outstanding : ∀ p, s.ctl.packet = some p → s.ctl.processing = true → p.ackAdvanced = true →
    s.tx.remoteAcked = p.priorRemoteAcked → s.tx.seq ≠ s.tx.remoteAcked
  counting : ∀ p, s.ctl.packet = some p → s.ctl.cursor.isSome = true →
    s.ctl.processing = true ∧ p.priorRemoteAcked = s.tx.remoteAcked

/-- What disturbs a pending keepalive timer: a timeout set to 0, a destroy
packet, a relayed datagram that moves `seq`; and a keepalive timer that
`udx_stream_connect` starts while something is outstanding. -/
def Entry.disturbsKeepalive : Entry → Bool
  | .call (.setKeepalive 0) pre | .reached .destroySend pre => pre.tm.pendingTimer == .keepalive
  | .reached (.relay seq) pre =>
    pre.tm.pendingTimer == .keepalive && decide (seqCompare pre.tx.seq seq < 0)
  | .reached .connectKeepalive pre =>
    pre.tm.keepaliveTimeoutMs != 0 && pre.tx.seq != pre.tx.remoteAcked
  | _ => false

/-- Nothing has disturbed a keepalive timer, and fewer than `2^32` numbers were
ever in use. -/
structure Undisturbed (s : Stream) : Prop where
  span : s.tx.span < 2 ^ 32
  log : ∀ e ∈ s.log, e.disturbsKeepalive = false

namespace Undisturbed

variable {s t : Stream}

theorem before (h : Undisturbed t) (hl : ∀ e ∈ s.log, e ∈ t.log) (hm : s.tx.Marks t.tx) :
    Undisturbed s :=
  ⟨Nat.lt_of_le_of_lt hm.span h.span, fun e he => h.log e (hl e he)⟩

variable (h : Undisturbed s)
include h

theorem setKeepalive {pre : Core} (hm : .call (.setKeepalive 0) pre ∈ s.log) :
    pre.tm.pendingTimer ≠ .keepalive := by
  simpa [Entry.disturbsKeepalive] using h.log _ hm

theorem destroy {pre : Core} (hm : .reached .destroySend pre ∈ s.log) :
    pre.tm.pendingTimer ≠ .keepalive := by
  simpa [Entry.disturbsKeepalive] using h.log _ hm

theorem relay {seq : SeqNo} {pre : Core} (hm : .reached (.relay seq) pre ∈ s.log)
    (hp : pre.tm.pendingTimer = .keepalive) : ¬ seqCompare pre.tx.seq seq < 0 := by
  simpa [Entry.disturbsKeepalive, hp] using h.log _ hm

theorem connect {pre : Core} (hm : .reached .connectKeepalive pre ∈ s.log)
    (hms : pre.tm.keepaliveTimeoutMs ≠ 0) : pre.tx.seq = pre.tx.remoteAcked := by
  simpa [Entry.disturbsKeepalive, hms] using h.log _ hm

end Undisturbed

namespace Tended

variable {s t u : Stream}

theorem rests (h : Tended s) (hr : Rests s t) : Tended t := by
  obtain ⟨htm, hseq, hra, hp, hproc, hcur⟩ := hr
  refine ⟨?_, ?_, ?_, ?_, ?_⟩
  · rw [htm]
    exact h.armed
  · rw [htm, hseq, hra]
    exact h.idle
  · rw [hp]
    exact h.advances
  · rw [hp, hproc, hra, hseq]
    exact h.outstanding
  · rw [hp, hproc, hra, hcur]
    exact h.counting

/-- A step that changes the timers only. -/
theorem timers (h : Tended s) (f : Timers → Timers)
    (harmed : ∀ x due, (f s.tm).timer = some (x, due) → (f s.tm).pendingTimer = x)
    (hidle : (f s.tm).pendingTimer = .keepalive →
      0 < (f s.tm).keepaliveTimeoutMs ∧ s.tx.seq = s.tx.remoteAcked) : Tended (s.withTm f) :=
  ⟨harmed, hidle, h.advances, h.outstanding, h.counting⟩

/-- The timer starts, and not for the keepalive. -/
theorem start (h : Tended s) {x : Timer} (hx : x ≠ .keepalive) (ms : ℕ) :
    Tended (streamTimerStart x ms s) :=
  h.timers _ (fun _ _ he => (congrArg Prod.fst (Option.some.inj he) :)) fun hk => absurd hk hx

theorem stop (h : Tended s) : Tended (streamTimerStop s) :=
  h.timers _ (fun _ _ he => nomatch he) fun hk => nomatch hk

theorem startKeepalive (h : Tended s) (hall : s.tx.remoteAcked = s.tx.seq) :
    Tended (startKeepalive s) := by
  unfold Udx.startKeepalive
  split
  · next hms =>
    exact h.timers _ (fun _ _ he => (congrArg Prod.fst (Option.some.inj he) :))
      fun _ => ⟨Nat.pos_of_ne_zero hms, hall.symm⟩
  · exact h.stop

/-- A timer of outstanding packets is pending afterwards. -/
theorem arms (h : Tended s) {r : Option ℕ} {tm : Timers}
    (ha : { s.tm with refillPacingTimer := r }.Arms tm) :
    (∀ x due, tm.timer = some (x, due) → tm.pendingTimer = x) ∧ tm.pendingTimer ≠ .keepalive := by
  rcases ha with ⟨hcov, rfl⟩ | ⟨x, due, ts, hx, rfl⟩
  · refine ⟨h.armed, fun hk => ?_⟩
    rw [show s.tm.pendingTimer = .keepalive from hk] at hcov
    cases hcov
  · refine ⟨fun y due' he => (congrArg Prod.fst (Option.some.inj he) :), ?_⟩
    rcases hx with rfl | rfl <;> exact fun hk => nomatch hk

end Tended

/-- The end of a chain of numbers is not where it began. -/
theorem next_ne_of_span {seq ra : SeqNo} (h : (seq - ra).toNat + 1 < 2 ^ 32) : seq + 1 ≠ ra := by
  bv_omega

theorem NewPacket.ctl {s t : Stream} (h : NewPacket s t) : t.ctl = s.ctl :=
  (congrArg Core.ctl h.core :)

theorem Resent.ctl {k : ℕ} {s t : Stream} (h : Resent k s t) : t.ctl = s.ctl :=
  (congrArg Core.ctl h.core :)

theorem Resent.numbers {k : ℕ} {s t : Stream} (h : Resent k s t) :
    t.tx.seq = s.tx.seq ∧ t.tx.remoteAcked = s.tx.remoteAcked := by
  obtain ⟨p, -, -, -, htx | htx⟩ := h.tx
  · rw [htx, Tx.launch_eq]
    exact ⟨rfl, rfl⟩
  · rw [htx]
    unfold Tx.queueUv Tx.setPkt
    rw [Tx.launch_eq]
    exact ⟨rfl, rfl⟩

/-- The numbers and the locals change no more than `seq` does. -/
theorem Tended.renumber {s t : Stream} (h : Tended s) (hctl : t.ctl = s.ctl)
    (hra : t.tx.remoteAcked = s.tx.remoteAcked)
    (hout : t.tx.seq = s.tx.seq ∨ t.tx.seq ≠ t.tx.remoteAcked)
    (harmed : ∀ x due, t.tm.timer = some (x, due) → t.tm.pendingTimer = x)
    (hidle : t.tm.pendingTimer = .keepalive →
      0 < t.tm.keepaliveTimeoutMs ∧ t.tx.seq = t.tx.remoteAcked) : Tended t := by
  refine ⟨harmed, hidle, ?_, fun p hp hproc hadv hprior => ?_, ?_⟩
  · rw [hctl]
    exact h.advances
  · rcases hout with hseq | hne
    · rw [hctl] at hp hproc
      rw [hseq, hra] at *
      exact h.outstanding p hp hproc hadv hprior
    · exact hne
  · rw [hctl, hra]
    exact h.counting

theorem SendMove.tended {s t : Stream} (h : SendMove s t) (hs : Tended s)
    (hspan : t.tx.span < 2 ^ 32) : Tended t := by
  have resent : ∀ {k : ℕ} {x y : Stream}, Tended x → Resent k x y → Tended y := by
    intro k x y hx hr
    obtain ⟨r, -, ha⟩ := hr.tm
    obtain ⟨harmed, hne⟩ := hx.arms ha
    exact hx.renumber hr.ctl hr.numbers.2 (.inl hr.numbers.1) harmed fun hk => absurd hk hne
  cases h with
  | aside h => exact hs.rests (.calm ((Calm.refl s).aside h))
  | enter => exact hs.rests (.of_core (Stream.check_core ..))
  | tlpEnter => exact hs.rests (.of_core (Stream.check_core ..))
  | slice b => exact hs.rests (fillSlice_rests b s)
  | recover h =>
    exact hs.rests ⟨(congrArg Core.tm h.core :), (congrArg (fun c => c.tx.seq) h.core :),
      (congrArg (fun c => c.tx.remoteAcked) h.core :), (congrArg (fun c => c.ctl.packet) h.core :),
      (congrArg (fun c => c.ctl.processing) h.core :), (congrArg (fun c => c.ctl.cursor.isSome) h.core :)⟩
  | shift b rest => exact hs.rests ⟨rfl, rfl, rfl, rfl, rfl, rfl⟩
  | prepare => exact hs.timers _ hs.armed hs.idle
  | newPacket h =>
    obtain ⟨hseq, hra, hsp, -⟩ := h.numbers
    obtain ⟨r, tm, -, ha, htm⟩ := h.tm
    obtain ⟨harmed, hne⟩ := hs.arms ha
    refine hs.renumber h.ctl hra (.inr ?_) (by rw [htm]; exact harmed)
      (by rw [htm]; exact fun hk => absurd hk hne)
    rw [hseq, hra]
    exact next_ne_of_span (by omega)
  | resend k rest hk h => exact resent hs h
  | reprobe k hk h =>
    have hunlink : Tended (s.withTx fun tx => tx.unlinkInflight k) :=
      hs.rests ⟨rfl, rfl, rfl, rfl, rfl, rfl⟩
    exact resent hunlink h
  | lost k =>
    refine hs.rests ?_
    unfold unprobeIfProbe
    split <;> exact ⟨rfl, rfl, rfl, rfl, rfl, rfl⟩
  | rearm fromNow =>
    unfold rearmRto rearmSavedRto
    split_ifs
    · exact hs.stop
    · exact hs.start (by simp) _
    · exact Tended.start (hs.rests (.of_core (Stream.check_core ..))) (by simp) _
  | lossTimer ms => exact hs.start (by simp) ms
  | reoTimer ms => exact hs.start (by simp) ms
  | deadline ts => exact hs.timers _ hs.armed hs.idle
  | fullAck _ hall =>
    have hcore := Stream.check_core .fullAckQueues
      (s.tx.inflightQueue.length = 0 ∧ s.tx.retransmitQueue.length = 0) s
    unfold timerFullAck
    dsimp only
    generalize s.check .fullAckQueues
      (s.tx.inflightQueue.length = 0 ∧ s.tx.retransmitQueue.length = 0) = x at hcore
    have hx : Tended x := hs.rests (.of_core hcore)
    split
    · exact hx.start (by simp) _
    · exact hx.startKeepalive (by rw [hcore]; exact hall)

/-! ### One step -/

section

variable (env : Env)

theorem queueWrite_tended {s : Stream} (hs : Tended s) (bufs : List (List UInt8)) (onAck e : Bool) :
    Tended (queueWrite env bufs onAck e s) := by
  have hqueue : Tended (s.withTx fun tx => tx.queueWrite bufs onAck e) := by
    have hnum := congrArg (fun t => (t.seq, t.remoteAcked)) (queueWrite_unqueued bufs onAck e s.tx)
    exact hs.rests ⟨rfl, (congrArg Prod.fst hnum :), (congrArg Prod.snd hnum :), rfl, rfl, rfl⟩
  unfold queueWrite probeWindow
  dsimp only
  generalize s.withTx (fun tx => tx.queueWrite bufs onAck e) = x at hqueue
  split
  · have hprobe : Tended (sendProbe env x) := hqueue.rests (.of_besideIo (sendProbe_core env x))
    exact hprobe.start (by simp) _
  · exact hqueue

/-- The destroy packet takes a number, and no timer is stopped. -/
theorem destroyStart_tended {s : Stream} (hs : Tended s) (hu : Undisturbed (destroyStart env s)) :
    Tended (destroyStart env s) := by
  rcases destroyStart_core env s with ⟨-, heq⟩ | ⟨-, hcore, hmem⟩
  · have hset := setDestroying_core s
    have hrests : Rests s (setDestroying s) :=
      ⟨(congrArg Core.tm hset :), (congrArg (fun c => c.tx.seq) hset :),
        (congrArg (fun c => c.tx.remoteAcked) hset :), (congrArg (fun c => c.ctl.packet) hset :),
        (congrArg (fun c => c.ctl.processing) hset :),
        (congrArg (fun c => c.ctl.cursor.isSome) hset :)⟩
    rw [heq]
    exact hs.rests (hrests.trans (closeStart_rests env .none _))
  · have htm : (destroyStart env s).tm = s.tm := (congrArg Core.tm hcore :)
    have htx : (destroyStart env s).tx = s.tx.advanceSeq := (congrArg Core.tx hcore :)
    have hpre : (setDestroying s).tm = s.tm := (congrArg Core.tm (setDestroying_core s) :)
    have hne : s.tm.pendingTimer ≠ .keepalive := by
      have := hu.destroy hmem
      rwa [hpre] at this
    have hspan : max s.tx.span ((s.tx.seq - s.tx.remoteAcked).toNat + 1) < 2 ^ 32 := by
      have := hu.span
      rwa [htx] at this
    refine hs.renumber (congrArg Core.ctl hcore :) (by rw [htx]; rfl) (.inr ?_)
      (by rw [htm]; exact hs.armed) fun hk => absurd (htm ▸ hk) hne
    rw [htx]
    exact next_ne_of_span (Nat.lt_of_le_of_lt (Nat.le_max_right ..) hspan)

/-- What a look at the packets after a timeout leaves alone. -/
theorem rtoScan_tended {s : Stream} (hs : Tended s) : Tended (rtoStart (clearTimer s)) ∧
    Tended (rtoScan (clearTimer s)) := by
  have hcore := rtoStart_core (clearTimer s)
  have hstart : Tended (rtoStart (clearTimer s)) := by
    have htm := (congrArg Core.tm hcore :)
    refine hs.renumber (congrArg Core.ctl hcore :) (congrArg (fun c => c.tx.remoteAcked) hcore :)
      (.inl (congrArg (fun c => c.tx.seq) hcore :)) ?_ ?_
    · rw [htm]
      exact fun x due he => (congrArg Prod.fst (Option.some.inj he) :)
    · rw [htm]
      exact fun hk => nomatch hk
  have hlook : ∀ (reoWnd k : ℕ) (x : Stream), Rests x (rtoLook reoWnd k x) := by
    intro reoWnd k x
    unfold rtoLook rtoKeepLost rtoMarkLost unprobeIfProbe
    dsimp only
    split_ifs <;> exact ⟨rfl, rfl, rfl, rfl, rfl, rfl⟩
  have hloop : ∀ (reoWnd n : ℕ) (seq : SeqNo) (x : Stream), Rests x (rtoLoop reoWnd n seq x) := by
    intro reoWnd n
    induction n with
    | zero => exact fun _ _ => .refl _
    | succ n ih =>
      intro seq x
      unfold rtoLoop
      split
      · exact ih ..
      · exact (hlook _ _ _).trans (ih ..)
  refine ⟨hstart, ?_⟩
  unfold rtoScan
  exact hstart.rests (hloop ..)

theorem zwpTimeout_tended {s : Stream} (hclear : Tended (clearTimer s)) :
    Tended (udxZwpTimeout env (clearTimer s)) := by
  have hcheck : ∀ {x : Stream} (a : Site) (p : Prop) [Decidable p], Tended x → Tended (x.check a p) :=
    fun a p _ hx => hx.rests (.of_core (Stream.check_core a p _))
  have hprobe : ∀ {x : Stream}, Tended x → Tended (sendProbe env x) := fun hx =>
    hx.rests (.of_besideIo (sendProbe_core env _))
  have hcount : ∀ {x : Stream}, Tended x →
      Tended (x.withTm fun tm => { tm with zwpCount := (tm.zwpCount + 1) % 2 ^ 16 }) := fun hx =>
    hx.timers _ hx.armed hx.idle
  unfold udxZwpTimeout
  dsimp only
  refine Tended.start (hcheck _ _ (hcheck _ _ (hprobe (hcount ?_)))) (by simp) _
  exact hcheck _ _ (hcheck _ _ (hcheck _ _ hclear))

/-- A number before another one does not come after it. -/
theorem seqCompare_neg_of_seqDiff_pos {a b : SeqNo} (h : seqDiff b a > 0) : seqCompare a b < 0 := by
  rw [seqCompare_neg]
  unfold seqDiff at *
  rw [BitVec.toInt_eq_toNat_cond] at *
  have hsub : (a - b).toNat + (b - a).toNat = 2 ^ 32 ∨ a = b := by bv_omega
  rcases hsub with hsum | rfl
  · split_ifs at * <;> omega
  · simp at h

theorem window_tended {p : RxPacket} {s : Stream} (hs : Tended s) (hp : s.ctl.packet = some p)
    (hack : ¬ seqCompare s.tx.seq p.h.ack < 0) :
    Tended (updateSendWindow p.h (setProcessing true s)) := by
  have hproc : Tended (setProcessing true s) := by
    refine ⟨hs.armed, hs.idle, hs.advances, fun q hq _ hadv hprior heq => ?_,
      fun q hq hcur => ⟨rfl, (hs.counting q hq hcur).2⟩⟩
    -- an ack past `remote_acked` is within what was sent
    obtain rfl : p = q := Option.some.inj (hp.symm.trans hq)
    have hpos := hs.advances p hp hadv
    have heq' : s.tx.seq = p.priorRemoteAcked := Eq.trans heq hprior
    exact hack (heq' ▸ seqCompare_neg_of_seqDiff_pos hpos)
  unfold updateSendWindow stopZwp
  split
  · split
    · exact hproc.stop.rests ⟨rfl, rfl, rfl, rfl, rfl, rfl⟩
    · exact hproc.rests ⟨rfl, rfl, rfl, rfl, rfl, rfl⟩
  · exact hproc

theorem advance_tended {p : RxPacket} {s : Stream} (hs : Tended s) (hp : s.ctl.packet = some p)
    (hcur : s.ctl.cursor.isSome = true) : Tended (advanceRemoteAcked p s) := by
  have hcursor : Tended (setCursor none s) :=
    ⟨hs.armed, hs.idle, hs.advances, hs.outstanding, nofun⟩
  unfold advanceRemoteAcked
  dsimp only
  split
  · next hadv =>
    obtain ⟨hproc, hprior⟩ := hs.counting p hp hcur
    have hne := hs.outstanding p hp hproc hadv hprior.symm
    have hpos := hs.advances p hp hadv
    refine ⟨hs.armed, fun hk => absurd (hs.idle hk).2 hne, hs.advances,
      fun q hq _ _ heq => ?_, nofun⟩
    obtain rfl : p = q := Option.some.inj (hp.symm.trans hq)
    have heq' : p.h.ack = p.priorRemoteAcked := heq
    rw [heq'] at hpos
    simp [seqDiff] at hpos
  · exact hcursor

theorem Atom.tended {s t : Stream} (h : Atom env s t) (hs : Tended s) (hu : Undisturbed t) :
    Tended t := by
  have hclear : Tended (Udx.clearTimer s) := hs.timers _ nofun hs.idle
  cases h with
  | calm h => exact hs.rests (.calm h)
  | send h => exact h.tended hs hu.span
  | changePath socket id addr cb =>
    obtain ⟨hcore, -⟩ :=
      changePath_spec socket id addr cb (s.note (.call (.changeRemote socket id addr cb) s.toCore))
    exact hs.rests ⟨(congrArg Core.tm hcore :), (congrArg (fun c => c.tx.seq) hcore :),
      (congrArg (fun c => c.tx.remoteAcked) hcore :), (congrArg (fun c => c.ctl.packet) hcore :),
      (congrArg (fun c => c.ctl.processing) hcore :), (congrArg (fun c => c.ctl.cursor.isSome) hcore :)⟩
  | remoteChanged =>
    have hchanged : Rests s (Udx.remoteChanged s) := ⟨rfl, rfl, rfl, rfl, rfl, rfl⟩
    exact hs.rests (hchanged.trans (announce_rests ..))
  | tick => exact hs.rests ⟨rfl, rfl, rfl, rfl, rfl, rfl⟩
  | found e _ he => exact hs.rests ⟨rfl, rfl, rfl, rfl, rfl, rfl⟩
  | begin e => exact hs.rests ⟨rfl, rfl, rfl, rfl, rfl, rfl⟩
  | finish => exact ⟨hs.armed, hs.idle, nofun, nofun, nofun⟩
  | packet p _ hprior hadv hr hdead hproc hcur =>
    refine ⟨hs.armed, hs.idle, fun q hq h => ?_, fun q _ h => ?_, fun q _ h => ?_⟩
    · obtain rfl : p = q := Option.some.inj hq
      rw [hprior]
      exact of_decide_eq_true (hadv.symm.trans h)
    · exact absurd (hproc.symm.trans h) Bool.false_ne_true
    · have hnone : s.ctl.cursor.isSome = true := h
      rw [hcur] at hnone
      cases hnone
  | setKeepalive ms _ hlog =>
    have hmem : .call (.setKeepalive ms) s.toCore ∈ (udxStreamSetKeepalive ms s).1.log := by
      unfold udxStreamSetKeepalive
      dsimp only
      split <;> exact hlog
    have hms : s.tm.pendingTimer = .keepalive → 0 < ms := by
      intro hk
      refine Nat.pos_of_ne_zero fun h0 => ?_
      exact hu.setKeepalive (h0 ▸ hmem) hk
    unfold udxStreamSetKeepalive
    dsimp only
    split
    · next hstart =>
      exact hs.timers (fun tm => Timers.start { tm with keepaliveTimeoutMs := ms } .keepalive
        (s.io.now + ms)) (fun _ _ he => (congrArg Prod.fst (Option.some.inj he) :))
        fun _ => ⟨Nat.pos_of_ne_zero hstart.2.1, hstart.1.symm⟩
    · exact hs.timers (fun tm => { tm with keepaliveTimeoutMs := ms }) hs.armed
        fun hk => ⟨hms hk, (hs.idle hk).2⟩
  | relayTo | clearRelayTo | capacity | setEnding | cancelSeq | cancelDone | ackDrop =>
    exact hs.rests ⟨rfl, rfl, rfl, rfl, rfl, rfl⟩
  | queueWrite bufs onAck isEnd => exact queueWrite_tended env hs ..
  | bind socket id addr =>
    have hnote : Rests s (s.note (.call (.connect socket id addr) s.toCore)) := .of_core rfl
    exact hs.rests (hnote.trans (connectBind_rests env ..))
  | keepalive _ pre socket id addr =>
    have hmem : .reached .connectKeepalive s.toCore ∈ (connectKeepalive s).log := by
      unfold connectKeepalive
      dsimp only
      split <;> exact List.mem_cons_self
    have hidle := hu.connect hmem
    unfold connectKeepalive
    dsimp only
    split
    · next hms =>
      have hstart : Tended (streamTimerStart .keepalive s.tm.keepaliveTimeoutMs s) :=
        hs.timers _ (fun _ _ he => (congrArg Prod.fst (Option.some.inj he) :))
          fun _ => ⟨Nat.pos_of_ne_zero hms, hidle hms⟩
      exact hstart.rests ⟨rfl, rfl, rfl, rfl, rfl, rfl⟩
    · exact hs.rests ⟨rfl, rfl, rfl, rfl, rfl, rfl⟩
  | destroy => exact destroyStart_tended env hs hu
  | close err => exact hs.rests (closeStart_rests env err s)
  | cancelPkt =>
    have hcheck := hs.rests (.of_core (Stream.check_core .packetHeld
      ((s.tx.pkts s.tx.pkt).refCount = 1) s))
    exact hcheck.rests ⟨rfl, rfl, rfl, rfl, rfl, rfl⟩
  | cancelChunk c rest =>
    have hset : Tended (setCancelling rest s) := hs.rests ⟨rfl, rfl, rfl, rfl, rfl, rfl⟩
    exact (hset.rests (countBytes_rests ..)).rests (announce_rests ..)
  | cancelQueued b rest =>
    have hshift : Tended (shiftWriteQueue rest s) := hs.rests ⟨rfl, rfl, rfl, rfl, rfl, rfl⟩
    exact (hshift.rests (countBytes_rests ..)).rests (announce_rests ..)
  | release =>
    have hstop : Tended (udxStreamReadStop (clearIncomingPackets s)).1 := by
      unfold udxStreamReadStop
      split <;> exact hs.rests ⟨rfl, rfl, rfl, rfl, rfl, rfl⟩
    have hdrop : Tended (dropOutgoing (udxStreamReadStop (clearIncomingPackets s)).1) :=
      hstop.rests ⟨rfl, rfl, rfl, rfl, rfl, rfl⟩
    exact ⟨nofun, hdrop.idle, hdrop.advances, hdrop.outstanding, hdrop.counting⟩
  | clearTimer x due _ ht => exact hclear
  | keepaliveTimeout due _ ht =>
    obtain ⟨hms, hidle⟩ := hs.idle (hs.armed _ _ ht)
    have hrests : Rests (Udx.clearTimer s) (sendProbe env ((Udx.clearTimer s).check .keepaliveIdle
        (s.tx.seq = s.tx.remoteAcked))) :=
      (Rests.of_core (Stream.check_core ..)).trans (.of_besideIo (sendProbe_core env _))
    have hprobe := hclear.rests hrests
    refine ⟨fun _ _ he => (congrArg Prod.fst (Option.some.inj he) :), fun _ => ⟨?_, ?_⟩,
      hprobe.advances, hprobe.outstanding, hprobe.counting⟩
    · have htm := congrArg Timers.keepaliveTimeoutMs hrests.tm
      exact Nat.lt_of_lt_of_eq hms htm.symm
    · exact hrests.seq.trans (hidle.trans hrests.remoteAcked.symm)
  | zwpTimeout => exact zwpTimeout_tended env hclear
  | rtoScan => exact (rtoScan_tended hs).2
  | giveUp =>
    unfold rtoGiveUp closeUnlessDestroying
    dsimp only
    have hdrop : Tended (dropTimewaitOnError .timedOut (rtoStart (Udx.clearTimer s))) := by
      unfold dropTimewaitOnError
      split <;> exact (rtoScan_tended hs).1.rests ⟨rfl, rfl, rfl, rfl, rfl, rfl⟩
    split
    · exact hdrop
    · exact hdrop.rests (closeStart_rests env ..)
  | clearPacing => exact hs.timers _ hs.armed hs.idle
  | uvSent i =>
    unfold Udx.uvSent
    split
    · exact hs
    · split
      · exact hs
      · exact hs.rests ⟨rfl, rfl, rfl, rfl, rfl, rfl⟩
  | uvDone i =>
    unfold Udx.uvDone
    split
    · exact hs
    · exact hs.rests ⟨rfl, rfl, rfl, rfl, rfl, rfl⟩
  | copySent i =>
    unfold Udx.copySent
    split
    · exact hs
    · split
      · exact hs
      · exact hs.rests ⟨rfl, rfl, rfl, rfl, rfl, rfl⟩
  | relay seq _ hr hdead hp =>
    have hmem : .reached (.relay seq) s.toCore ∈ (relaySeq seq s).log := List.mem_cons_self
    have hkeep := hu.relay hmem
    refine ⟨hs.armed, fun hk => ⟨(hs.idle hk).1, ?_⟩, ?_, ?_, ?_⟩
    · show (if seqCompare s.tx.seq seq < 0 then seq else s.tx.seq) = s.tx.remoteAcked
      rw [if_neg (hkeep hk)]
      exact (hs.idle hk).2
    · exact fun p hp' => absurd (hp'.symm.trans hp) nofun
    · exact fun p hp' => absurd (hp'.symm.trans hp) nofun
    · exact fun p hp' => absurd (hp'.symm.trans hp) nofun
  | window p _ hp hdead hack => exact window_tended hs hp hack
  | ackInit p _ hp hdead hproc hprior =>
    refine ⟨hs.armed, hs.idle, hs.advances, hs.outstanding, fun q hq _ => ?_⟩
    obtain rfl : p = q := Option.some.inj (hp.symm.trans hq)
    exact ⟨hproc, hprior⟩
  | ackAbsent p c _ hp hdead hc =>
    have hnext : Tended (setCursor (some (c + 1)) s) :=
      hs.rests ⟨rfl, rfl, rfl, rfl, rfl, (congrArg Option.isSome hc.symm :)⟩
    unfold Udx.ackAbsent ackMissing
    exact (hnext.rests (.of_core (Stream.check_core ..))).rests ⟨rfl, rfl, rfl, rfl, rfl, rfl⟩
  | ackTake p c k _ hp hdead hc =>
    have hnext : Tended (setCursor (some (c + 1)) s) :=
      hs.rests ⟨rfl, rfl, rfl, rfl, rfl, (congrArg Option.isSome hc.symm :)⟩
    exact hnext.rests (ackTake_rests ..)
  | sackTake c k => exact hs.rests (ackTake_rests ..)
  | sackDead c k x rest => exact hs.rests ((ackTake_rests ..).trans (ackBytes_rests ..))
  | sackAbsent => exact hs.rests (.of_core (Stream.check_core ..))
  | chunk c rest => exact hs.rests (ackBytes_rests ..)
  | complete b sack =>
    have hset : Tended (clearAckDue s) := hs.rests ⟨rfl, rfl, rfl, rfl, rfl, rfl⟩
    exact hset.rests (announce_rests ..)
  | ackDone k =>
    unfold Udx.ackDone ackEnd
    split <;> exact hs.rests ⟨rfl, rfl, rfl, rfl, rfl, rfl⟩
  | advance p _ hp hend hidle =>
    obtain ⟨c, hc, -⟩ := hend
    exact advance_tended hs hp (by rw [hc]; rfl)
  | processed _ hcur =>
    refine ⟨hs.armed, hs.idle, hs.advances, nofun, fun p _ hsome => ?_⟩
    have hnone : s.ctl.cursor.isSome = true := hsome
    rw [hcur] at hnone
    cases hnone
  | timerEnded =>
    unfold Udx.timerEnded
    split
    · next hall => exact hs.startKeepalive hall
    · exact hs

end

/-! ### Every run -/

/-- A pending keepalive timer has a timeout and finds nothing outstanding. -/
def Core.keepaliveIdle (c : Core) : Prop :=
  c.tm.pendingTimer = .keepalive → 0 < c.tm.keepaliveTimeoutMs ∧ c.tx.seq = c.tx.remoteAcked

/-- The keepalive timer of a run: now, at every call and at every return of a
callback; its assert never failed, and it only fires with a timeout, so that
a stream whose keepalive is off sends no probe. -/
structure KeptAlive (s : Stream) : Prop where
  now : s.keepaliveIdle
  called : ∀ c pre, .call c pre ∈ s.log → pre.keepaliveIdle
  returned : ∀ c post, .returned c post ∈ s.log → post.keepaliveIdle
  asserts : .failed .keepaliveIdle ∉ s.log
  fires : ∀ pre due, .event .timer pre ∈ s.log → pre.tm.timer = some (.keepalive, due) →
    0 < pre.tm.keepaliveTimeoutMs ∧ pre.tx.seq = pre.tx.remoteAcked

theorem Tended.fires {s : Stream} (h : Tended s) {due : ℕ} (ht : s.tm.timer = some (.keepalive, due)) :
    0 < s.tm.keepaliveTimeoutMs ∧ s.tx.seq = s.tx.remoteAcked := h.idle (h.armed _ _ ht)

theorem KeptAlive.step {s t : Stream} (h : KeptAlive s) (hs : Tended s) (ht : Tended t)
    (hl : ∀ e ∈ t.log, e ∈ s.log ∨ e.found = some s.toCore ∨ e.tells s) : KeptAlive t := by
  refine ⟨ht.idle, fun c pre hm => ?_, fun c post hm => ?_, fun hm => ?_, fun pre due hm hfire => ?_⟩
  · rcases hl _ hm with hold | hfound | ⟨rfl, -⟩
    · exact h.called c pre hold
    · exact Option.some.inj hfound ▸ hs.idle
    · exact hs.idle
  · rcases hl _ hm with hold | hfound | rfl
    · exact h.returned c post hold
    · exact Option.some.inj hfound ▸ hs.idle
    · exact hs.idle
  · rcases hl _ hm with hold | hfound | ⟨⟨due, hfire⟩, hne⟩
    · exact h.asserts hold
    · cases hfound
    · exact hne (hs.fires hfire).2
  · rcases hl _ hm with hold | hfound | rfl
    · exact h.fires pre due hold hfire
    · cases hfound
    · exact hs.fires hfire

/-- Where nothing disturbs it, the keepalive timer is pending only with a
timeout and with nothing outstanding. -/
theorem Reach.keptAlive {env : Env} {cfg : Config} {s : Stream} (h : Reach env cfg s)
    (hu : Undisturbed s) : KeptAlive s := by
  have hinit : Tended (Udx.init env cfg) := by constructor <;> simp
  have hfirst : KeptAlive (Udx.init env cfg) := by constructor <;> simp [Core.keepaliveIdle]
  have hall := h.atoms (I := fun s => Undisturbed s → Tended s ∧ KeptAlive s)
    (fun _ => ⟨hinit, hfirst⟩) fun ha ih hu' => by
      obtain ⟨hs, hk⟩ := ih (hu'.before (fun _ => ha.mem_log env) (ha.marks env))
      have ht := ha.tended env hs hu'
      exact ⟨ht, hk.step hs ht fun _ => ha.old_or_tells env⟩
  exact (hall hu).2

/-- A stream that connects with a keepalive timeout of 10, and its first
keepalive. -/
def keepaliveEvents : List Event :=
  [.call (.setKeepalive 10), .call (.connect ⟨0, .inet⟩ 2 ⟨.inet, 1, [1, 2, 3, 4]⟩), .tick 10, .timer]

def keepaliveConfig : Config := { localId := 1, seq := 0, ack := 0, now := 0 }

theorem Reach.keptAlive_first :
    KeptAlive (Udx.runEvents .free keepaliveEvents (Udx.init .free keepaliveConfig)) :=
  (Reach.runEvents .init keepaliveEvents).keptAlive ⟨by decide +kernel, by decide +kernel⟩

/-- A keepalive timeout set back to 0 leaves the timer pending, which fires and
is started again, with no time to wait. -/
theorem Reach.keptAlive_off : ∃ s, Reach .free keepaliveConfig s ∧ s.tm.keepaliveTimeoutMs = 0 ∧
    s.tm.pendingTimer = .keepalive ∧ s.tm.timer = some (.keepalive, s.io.now) :=
  ⟨_, .runEvents .init (keepaliveEvents ++ [.call (.setKeepalive 0), .tick 10, .timer]),
    by decide +kernel, by decide +kernel, by decide +kernel⟩

end Udx
