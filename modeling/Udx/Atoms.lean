/-
# The steps of the sender

The moves of a stream cut once more, so that each step does one thing to what
is sent and to the timers. What a stream does to its receive side, to its
callbacks and to its congestion window is one step, `Calm`, that the sender
does not see. Every call and event is a path of these steps, so an invariant of
the sender that holds along each of them holds in every reachable state.

Key definitions: `Core.sender`, `Calm`, `Atom`, `AtomPath`.
Key theorems: `CallMove.atoms`, `Move.atoms`, `Reach.atoms`.
-/
import Udx.SendMoves
import Udx.Paths

namespace Udx

open Serial

/-- What the sender reads and writes. -/
def Core.sender (c : Core) : Core :=
  { c with
    st := { c.st with
      receiving := false, reading := false, endingRemote := false, endedRemote := false,
      timewaitWanted := false }
    rx := {}
    win := { sendRwnd := c.win.sendRwnd }
    cc := { caState := c.cc.caState, highSeq := c.cc.highSeq }
    handlers := {}
    io := { now := c.io.now }
    ctl := { c.ctl with
      rs := {}, sacksLeft := [], draining := [], connecting := false } }

/-- The MTU search stays where a packet has room for a payload. -/
structure Mtu.Sound (m : Mtu) : Prop where
  mtu : UDX_MTU_BASE ≤ m.mtu
  probeSize : UDX_MTU_BASE ≤ m.probeSize
  max : UDX_MTU_BASE ≤ m.max ∨ m.state = .searchComplete

theorem Mtu.Tunes.sound {m m' : Mtu} (h : m.Tunes m') (hm : m.Sound) : m'.Sound := by
  refine ⟨h.mtu ▸ hm.mtu, h.probeSize ▸ hm.probeSize, ?_⟩
  rw [h.max]
  rcases hm.max with hmax | hstate
  · exact .inl hmax
  · rcases h.state with hs | hs
    · exact .inr (hs.trans hstate)
    · exact .inr hs

/-- What a step that the sender does not see may log: it sends to `dest`. -/
def Entry.calm (dest : Dest) : Entry → Bool
  | .failed a => a.loose || a == .endRetransmitQueue || a == .endWriteQueue
  | .refill .. | .result _ | .accept .. | .dropped => true
  | .callback (.ack ..) | .callback .remoteChanged => false
  | .callback _ => true
  | .handed .timewait _ => true
  | .handed .ack d | .handed (.message _) d => d == dest
  | .handed .. => false
  | .wire (.packet _) _ _ => false
  | .wire .. => true
  | _ => false

/-- The sender sees nothing of what leads from `s` to `t`. -/
structure Calm (s t : Stream) : Prop where
  sender : t.sender = s.sender
  log : ∃ l, t.log = l ++ s.log ∧ ∀ e ∈ l, e.calm s.peer.dest = true

namespace Calm

variable {s t u : Stream}

theorem refl (s : Stream) : Calm s s := ⟨rfl, [], rfl, by simp⟩

theorem peer (h : Calm s t) : t.peer = s.peer := (congrArg Core.peer h.sender :)

theorem trans (h : Calm s t) (h' : Calm t u) : Calm s u := by
  obtain ⟨l, hl, hs⟩ := h.log
  obtain ⟨l', hl', hs'⟩ := h'.log
  refine ⟨h'.sender.trans h.sender, l' ++ l, by rw [hl', hl, List.append_assoc], fun e he => ?_⟩
  rcases List.mem_append.mp he with he | he
  · exact h.peer ▸ hs' e he
  · exact hs e he

section

variable (h : Calm s t)
include h

theorem tx : t.tx = s.tx := (congrArg Core.tx h.sender :)
theorem tm : t.tm = s.tm := (congrArg Core.tm h.sender :)
theorem sendRwnd : t.win.sendRwnd = s.win.sendRwnd := (congrArg (fun c => c.win.sendRwnd) h.sender :)
theorem connected : t.st.connected = s.st.connected :=
  (congrArg (fun c => c.st.connected) h.sender :)
theorem ending : t.st.ending = s.st.ending := (congrArg (fun c => c.st.ending) h.sender :)
theorem ended : t.st.ended = s.st.ended := (congrArg (fun c => c.st.ended) h.sender :)
theorem destroying : t.st.destroying = s.st.destroying :=
  (congrArg (fun c => c.st.destroying) h.sender :)
theorem closed : t.st.closed = s.st.closed := (congrArg (fun c => c.st.closed) h.sender :)
theorem dead : t.st.dead = s.st.dead := congrArg₂ (· || ·) h.destroying h.closed
theorem mtu : t.mtu = s.mtu := (congrArg Core.mtu h.sender :)
theorem caState : t.cc.caState = s.cc.caState := (congrArg (fun c => c.cc.caState) h.sender :)
theorem highSeq : t.cc.highSeq = s.cc.highSeq := (congrArg (fun c => c.cc.highSeq) h.sender :)
theorem now : t.io.now = s.io.now := (congrArg (fun c => c.io.now) h.sender :)
theorem relayTo : t.peer.relayTo = s.peer.relayTo := congrArg Peer.relayTo h.peer
theorem packet : t.ctl.packet = s.ctl.packet := (congrArg (fun c => c.ctl.packet) h.sender :)
theorem cursor : t.ctl.cursor = s.ctl.cursor := (congrArg (fun c => c.ctl.cursor) h.sender :)
theorem processing : t.ctl.processing = s.ctl.processing :=
  (congrArg (fun c => c.ctl.processing) h.sender :)
theorem acking : t.ctl.acking = s.ctl.acking := (congrArg (fun c => c.ctl.acking) h.sender :)
theorem ackDue : t.ctl.ackDue = s.ctl.ackDue := (congrArg (fun c => c.ctl.ackDue) h.sender :)

theorem mem_log {e : Entry} (he : e ∈ s.log) : e ∈ t.log := by
  obtain ⟨l, hl, -⟩ := h.log
  exact hl ▸ List.mem_append_right _ he

end

variable (h : Calm s t)
include h

theorem aside (h' : Aside t u) : Calm s u := by
  obtain ⟨l, hl, hs⟩ := h'.log
  -- the projection of the sender by those of congestion control
  have hproj : ∀ c : Core, c.sender = { c.uncontrolled.sender with
    cc := { caState := c.cc.episode.2.1, highSeq := c.cc.episode.2.2 }, mtu := c.mtu } := fun _ => rfl
  have hcore : u.sender = t.sender := by
    rw [hproj u.toCore, hproj t.toCore, h'.core, h'.cc, h'.mtu]
  refine h.trans ⟨hcore, l, hl, fun e he => ?_⟩
  have hloose := hs e he
  cases e with
  | failed a => simp [Entry.calm, show a.loose = true from hloose]
  | refill => rfl
  | _ => cases hloose

theorem note {e : Entry} (he : e.calm t.peer.dest = true) : Calm s (t.note e) :=
  h.trans ⟨rfl, [e], rfl, by simpa using he⟩

theorem check {a : Site} (ha : (Entry.failed a).calm t.peer.dest = true) (p : Prop) [Decidable p] :
    Calm s (t.check a p) := by
  unfold Stream.check
  split
  · exact h
  · exact h.note ha

theorem announce (on : Bool) {c : Callback} (hc : (Entry.callback c).calm t.peer.dest = true) :
    Calm s (t.announce on c) := by
  unfold Stream.announce
  split
  · exact h.note hc
  · exact h

/-- A step with no entry of the log. -/
theorem quiet (hs : u.sender = t.sender) (hl : u.log = t.log) : Calm s u :=
  h.trans ⟨hs, [], hl, by simp⟩

theorem withRx (f : Rx → Rx) : Calm s (t.withRx f) := h.quiet rfl rfl
theorem withHandlers (f : Handlers → Handlers) : Calm s (t.withHandlers f) := h.quiet rfl rfl
theorem asked : Calm s t.asked := h.quiet rfl rfl

theorem withCc {f : Cc → Cc} (hf : (f t.cc).caState = t.cc.caState ∧ (f t.cc).highSeq = t.cc.highSeq) :
    Calm s (t.withCc f) := by
  refine h.quiet ?_ rfl
  unfold Core.sender Stream.withCc
  rw [hf.1, hf.2]

theorem withIo {f : Io → Io} (hf : (f t.io).now = t.io.now) : Calm s (t.withIo f) := by
  refine h.quiet ?_ rfl
  unfold Core.sender Stream.withIo
  rw [hf]

theorem sendCopy (env : Env) {k : Kind} {dest : Dest}
    (hk : (Entry.handed k dest).calm t.peer.dest = true) (d : List UInt8) :
    Calm s (sendCopy env k dest d t) := by
  have hwire : (Entry.wire k dest d).calm t.peer.dest = true := by
    cases k <;> first | rfl | cases hk
  have hhand := h.note hk
  unfold Udx.sendCopy
  dsimp only
  split
  · exact (hhand.note hwire).asked
  · split
    · exact (hhand.withIo (f := fun io => { io with
        copies := t.io.copies ++ [{ kind := k, dest := dest, bytes := d }] }) rfl).asked
    · exact hhand.asked
  · exact hhand.asked

end Calm

/-- `udx_stream_change_remote` up to the packet in construction. -/
def changePath (socket : Socket) (id : SeqNo) (addr : SockAddr) (cb : Bool) (s : Stream) : Stream :=
  let r := setRemoteAddr s.peer.socket addr s
  if r.2 then
    let s := r.1.withPeer fun peer => { peer with remoteId := id, socket := some socket }
    if seqOfChange s.tx ≠ s.tx.remoteAcked then
      resetMtuStateMachine (deferRemoteChange (seqOfChange s.tx) cb s)
    else resetMtuStateMachine s
  else r.1

theorem setRemoteAddr_relayTo (socket : Option Socket) (addr : SockAddr) (s : Stream) :
    (setRemoteAddr socket addr s).1.peer.relayTo = s.peer.relayTo := by
  unfold setRemoteAddr
  dsimp only
  split_ifs <;> rfl

/-- The change of path changes whom the stream talks to and starts the MTU
search over. -/
theorem changePath_spec (socket : Socket) (id : SeqNo) (addr : SockAddr) (cb : Bool) (s : Stream) :
    let t := changePath socket id addr cb s
    t.toCore = { s.toCore with peer := t.peer, mtu := t.mtu, handlers := t.handlers } ∧
      t.log = s.log ∧ t.peer.relayTo = s.peer.relayTo ∧
      (t.mtu = s.mtu ∨ t.mtu = s.mtu.reset) := by
  have hcore := setRemoteAddr_core s.peer.socket addr s
  have hrelay := setRemoteAddr_relayTo s.peer.socket addr s
  unfold changePath
  dsimp only
  generalize (setRemoteAddr s.peer.socket addr s).1 = r at hcore hrelay ⊢
  generalize r.peer = peer at hcore hrelay
  subst hcore
  split_ifs
  · exact ⟨rfl, rfl, hrelay, .inr rfl⟩
  · exact ⟨rfl, rfl, hrelay, .inr rfl⟩
  · exact ⟨rfl, rfl, hrelay, .inl rfl⟩

/-- The state an entry of the log was made in, where it holds that. -/
def Entry.found : Entry → Option Core
  | .call _ c | .returned _ c => some c
  | _ => none

/-- The start of the retransmission timeout, and its look at the packets. -/
def rtoScan (s : Stream) : Stream :=
  let s := rtoStart s
  rtoLoop (rackUpdateReoWnd s) (s.tx.seq - s.tx.remoteAcked).toNat s.tx.remoteAcked s

section

variable (env : Env)

/-- The steps of the sender. -/
inductive Atom : Stream → Stream → Prop
  | calm {s t} (h : Calm s t) : Atom s t
  | send {s t} (h : SendMove s t) : Atom s t
  -- the log and the locals
  | found (e : Entry) (s : Stream) (he : e.found = some s.toCore) (hset : e.sets = false) :
    Atom s (s.note e)
  | begin (e : Event) (s : Stream) (hidle : s.ctl = s.ctl.idle) : Atom s (beginEvent e s)
  | finish (s : Stream) (hcur : s.ctl.cursor = none)
    (hset : s.st.dead = true ∨ s.ctl.acking = [] ∧ s.ctl.ackDue = none) : Atom s (finishEvent s)
  | packet (p : RxPacket) (s : Stream) (hprior : p.priorRemoteAcked = s.tx.remoteAcked)
    (hadv : p.ackAdvanced = decide (seqDiff p.h.ack s.tx.remoteAcked > 0))
    (hr : s.peer.relayTo = false) (hdead : s.st.dead = false) (hproc : s.ctl.processing = false)
    (hcur : s.ctl.cursor = none) : Atom s (setPacket p s)
  -- calls
  | setKeepalive (ms : ℕ) (s : Stream) (hlog : .call (.setKeepalive ms) s.toCore ∈ s.log) :
    Atom s (udxStreamSetKeepalive ms s).1
  | changePath (socket : Socket) (id : SeqNo) (addr : SockAddr) (cb : Bool) (s : Stream)
    (hset : (Entry.call (.changeRemote socket id addr cb) s.toCore).sets = true) :
    Atom s (changePath socket id addr cb (s.note (.call (.changeRemote socket id addr cb) s.toCore)))
  | relayTo (s : Stream) : Atom s (s.withPeer fun peer => { peer with relayed := true, relayTo := true })
  | clearRelayTo (s : Stream) : Atom s (clearRelayTo s)
  | capacity (s : Stream) (hdata : hasFlag s.tx.pktHeaderFlag UDX_HEADER_DATA = false) :
    Atom s (s.withTx fun tx => { tx with pktCapacity := udxMaxPayload s })
  | setEnding (s : Stream) (hconn : s.st.connected = true) (hend : s.st.ending = false) :
    Atom s (setEnding s)
  | queueWrite (bufs : List (List UInt8)) (onAck isEnd : Bool) (s : Stream)
    (hconn : s.st.connected = true) (hbufs : bufs ≠ []) (hend : isEnd = s.st.ending)
    (hlog : ∃ c pre, .call c pre ∈ s.log ∧ pre.tx = s.tx ∧ pre.win = s.win ∧ pre.st.dead = s.st.dead ∧
      (c = .write bufs onAck ∧ isEnd = false ∨ isEnd = true ∧ ∃ l, c = .writeEnd l onAck)) :
    Atom s (queueWrite env bufs onAck isEnd s)
  | bind (socket : Socket) (id : SeqNo) (addr : SockAddr) (s : Stream)
    (hset : (Entry.call (.connect socket id addr) s.toCore).sets = true) :
    Atom s (connectBind env socket id addr (s.note (.call (.connect socket id addr) s.toCore))).1
  | keepalive (s : Stream) (pre : Core) (socket : Socket) (id : SeqNo) (addr : SockAddr)
    (hdead : s.st.dead = false) (hpre : .call (.connect socket id addr) pre ∈ s.log)
    (hconn : pre.st.connected = false) (hlive : pre.st.dead = false)
    (hfound : FoundBy pre s) : Atom s (connectKeepalive s)
  | destroy (s : Stream) (hdead : s.st.dead = false) (hconn : s.st.connected = true) :
    Atom s (destroyStart env s)
  | close (err : CloseErr) (s : Stream) : Atom s (closeStart env err s)
  | cancelPkt (s : Stream) (hs : s.st.closed = true) : Atom s (cancelPkt s)
  | cancelSeq (seq : SeqNo) (k : ℕ) (s : Stream) (hs : s.st.closed = true)
    (hk : s.tx.outgoing seq = some k) : Atom s (cancelSeq seq k s)
  | cancelChunk (c : Chunk) (rest : List Chunk) (s : Stream) (hs : s.st.closed = true)
    (hc : s.ctl.cancelling = c :: rest) : Atom s (cancelChunk c rest s)
  | cancelDone (k : ℕ) (s : Stream) (hs : s.st.closed = true) (hc : s.ctl.cancelling = []) :
    Atom s (derefPacket k s)
  | cancelQueued (b : ℕ) (rest : List ℕ) (s : Stream) (hs : s.st.closed = true)
    (hb : s.tx.writeQueue = b :: rest) : Atom s (cancelQueued b rest s)
  | release (s : Stream) (hs : s.st.closed = true) (hpkt : s.ctl.pktCancelled = true)
    (hc : s.ctl.cancelling = []) (hq : s.tx.writeQueue = [])
    (hout : ∀ a, (a - s.tx.remoteAcked).toNat < (s.tx.seq - s.tx.remoteAcked).toNat →
      s.tx.outgoing a = none) : Atom s (releaseHandles s)
  -- timers and completions
  | clearTimer (x : Timer) (due : ℕ) (s : Stream) (ht : s.tm.timer = some (x, due))
    (hx : x = .tlp ∨ x = .rackReo ∨ x = .none) : Atom s (clearTimer s)
  | keepaliveTimeout (due : ℕ) (s : Stream) (ht : s.tm.timer = some (.keepalive, due)) :
    Atom s (udxKeepaliveTimeout env (Udx.clearTimer s))
  | zwpTimeout (due : ℕ) (s : Stream) (ht : s.tm.timer = some (.zwp, due)) :
    Atom s (udxZwpTimeout env (Udx.clearTimer s))
  | rtoScan (due : ℕ) (s : Stream) (ht : s.tm.timer = some (.rto, due))
    (hcur : s.ctl.cursor = none) : Atom s (rtoScan (Udx.clearTimer s))
  | giveUp (due : ℕ) (s : Stream) (ht : s.tm.timer = some (.rto, due)) :
    Atom s (rtoGiveUp env s)
  | tick (ms : ℕ) (s : Stream) : Atom s (s.withIo fun io => { io with now := io.now + ms })
  | clearPacing (s : Stream) (hr : s.tm.refillPacingTimer.isSome = true) : Atom s (clearPacing s)
  | uvSent (i : ℕ) (s : Stream) : Atom s (uvSent i s)
  | uvDone (i : ℕ) (s : Stream) : Atom s (uvDone i s)
  | copySent (i : ℕ) (s : Stream) : Atom s (copySent i s)
  -- relays
  | relay (seq : SeqNo) (s : Stream) (hr : s.peer.relayTo = true) (hdead : s.st.dead = false)
    (hp : s.ctl.packet = none) : Atom s (relaySeq seq s)
  -- acknowledgements
  | window (p : RxPacket) (s : Stream) (hp : s.ctl.packet = some p) (hdead : s.st.dead = false)
    (hack : ¬ seqCompare s.tx.seq p.h.ack < 0) : Atom s (updateSendWindow p.h (setProcessing true s))
  | remoteChanged (p : RxPacket) (s : Stream) (hp : s.ctl.packet = some p)
    (hdead : s.st.dead = false) (hack : ¬ seqCompare s.tx.seq p.h.ack < 0)
    (hchanging : s.peer.remoteChanging = true)
    (hge : seqDiff p.h.ack s.peer.seqOnRemoteChanged ≥ 0) :
    Atom s ((remoteChanged s).announce s.handlers.onRemoteChanged .remoteChanged)
  | ackInit (p : RxPacket) (s : Stream) (hp : s.ctl.packet = some p) (hdead : s.st.dead = false)
    (hproc : s.ctl.processing = true) (hprior : p.priorRemoteAcked = s.tx.remoteAcked)
    (hcur : s.ctl.cursor = none) : Atom s (ackInit p s)
  | ackAbsent (p : RxPacket) (c : SeqNo) (s : Stream) (hp : s.ctl.packet = some p)
    (hdead : s.st.dead = false) (hc : s.ctl.cursor = some c) (hlt : seqCompare c p.h.ack < 0)
    (hk : s.tx.outgoing c = none) : Atom s (ackAbsent false (setCursor (some (c + 1)) s))
  | ackTake (p : RxPacket) (c : SeqNo) (k : ℕ) (s : Stream) (hp : s.ctl.packet = some p)
    (hdead : s.st.dead = false) (hc : s.ctl.cursor = some c) (hlt : seqCompare c p.h.ack < 0)
    (hk : s.tx.outgoing c = some k) (hidle : s.ctl.acking = [] ∧ s.ctl.ackDue = none) :
    Atom s (ackTake c k false (setCursor (some (c + 1)) s))
  | sackTake (c : SeqNo) (k : ℕ) (s : Stream) (hc : s.ctl.cursor = none)
    (hk : s.tx.outgoing c = some k)
    (hidle : s.st.dead = false ∧ s.ctl.acking = [] ∧ s.ctl.ackDue = none ∨
      (s.tx.pkts k).bufs = []) : Atom s (ackTake c k true s)
  | sackDead (c : SeqNo) (k : ℕ) (x : Chunk) (rest : List Chunk) (s : Stream)
    (hc : s.ctl.cursor = none) (hk : s.tx.outgoing c = some k) (hdead : s.st.dead = true)
    (hb : (s.tx.pkts k).bufs = x :: rest) : Atom s (ackBytes x rest (Udx.ackTake c k true s))
  | sackAbsent (c : SeqNo) (s : Stream) (hc : s.ctl.cursor = none)
    (hk : s.tx.outgoing c = none) : Atom s (ackAbsent true s)
  | chunk (c : Chunk) (rest : List Chunk) (s : Stream) (hc : s.ctl.acking = c :: rest)
    (hdue : s.ctl.ackDue = none) : Atom s (ackBytes c rest s)
  | complete (b : ℕ) (sack : Bool) (s : Stream) (hdead : s.st.dead = false)
    (hb : s.ctl.ackDue = some b) : Atom s (completeStage b sack s)
  | ackDone (k : ℕ) (s : Stream) (hk : s.ctl.ackPkt = some k) (hc : s.ctl.acking = [])
    (hdue : s.ctl.ackDue = none) : Atom s (ackDone k s)
  | ackDrop (k : ℕ) (s : Stream) (hdead : s.st.dead = true) : Atom s (derefPacket k s)
  | advance (p : RxPacket) (s : Stream) (hp : s.ctl.packet = some p)
    (hend : ∃ c, s.ctl.cursor = some c ∧
      (¬ seqCompare c p.h.ack < 0 ∨ s.EndAcked ∨ s.st.dead = true))
    (hidle : s.st.dead = true ∨ s.ctl.acking = [] ∧ s.ctl.ackDue = none) :
    Atom s (advanceRemoteAcked p s)
  | processed (s : Stream) (hcur : s.ctl.cursor = none) : Atom s (setProcessing false s)
  | timerEnded (s : Stream) (hdead : s.st.dead = false) (hended : s.st.ended = true) :
    Atom s (timerEnded s)

/-- Paths of these steps. -/
inductive AtomPath : Stream → Stream → Prop
  | refl (s : Stream) : AtomPath s s
  | tail {s t u} (h : AtomPath s t) (ha : Atom env t u) : AtomPath s u

end

namespace AtomPath

variable {env : Env} {s t u : Stream}

theorem single (h : Atom env s t) : AtomPath env s t := .tail (.refl s) h

theorem trans (h : AtomPath env s t) (h' : AtomPath env t u) : AtomPath env s u := by
  induction h' with
  | refl => exact h
  | tail _ ha ih => exact .tail ih ha

theorem calm (h : AtomPath env s t) (h' : Calm t u) : AtomPath env s u := .tail h (.calm h')

theorem send (h : AtomPath env s t) (h' : SendPath t u) : AtomPath env s u := by
  induction h' with
  | refl => exact h
  | tail _ hm ih => exact .tail ih (.send hm)

/-- What the steps preserve holds along paths. -/
theorem preserves {I : Stream → Prop} (hI : ∀ {s t}, Atom env s t → I s → I t)
    (h : AtomPath env s t) : I s → I t := by
  induction h with
  | refl => exact id
  | tail _ ha ih => exact fun hs => hI ha (ih hs)

end AtomPath

/-! ### Calls -/

variable (env : Env)

theorem base_le_max : UDX_MTU_BASE ≤ UDX_MTU_MAX := by decide

theorem Mtu.Sound.reset {m : Mtu} : (Mtu.reset m).Sound :=
  ⟨Nat.le_refl _, Nat.le_refl _, .inl base_le_max⟩

theorem Mtu.Sound.setLink {m : Mtu} (h : m.Sound) (linkMtu : Option ℕ) : (m.setLink linkMtu).Sound := by
  unfold Mtu.setLink
  split
  · exact ⟨h.mtu, h.probeSize, .inl base_le_max⟩
  · next mtu =>
    split_ifs with h1 h2
    · exact ⟨h.mtu, h.probeSize, .inl base_le_max⟩
    · exact ⟨h.mtu, h.probeSize, .inr rfl⟩
    · exact ⟨h.mtu, h.probeSize, .inl (Nat.le_of_lt (Nat.lt_of_not_le h2))⟩

theorem writeResult_calm (s : Stream) : Calm s (writeResult s).1 := by
  unfold writeResult
  split
  · exact (Calm.refl s).quiet rfl rfl
  · exact .refl s

/-- `udx_stream_change_remote`, from before the call. -/
theorem changeRemote_atoms (socket : Socket) (id : SeqNo) (addr : SockAddr) (cb : Bool) (s : Stream) :
    AtomPath env s (udxStreamChangeRemote socket id addr cb
      (s.note (.call (.changeRemote socket id addr cb) s.toCore))).1 := by
  have hreset : ∀ {x : Stream}, AtomPath env s x → AtomPath env s (resetCapacity x) := by
    intro x hx
    unfold resetCapacity
    split
    · exact hx
    · next hdata => exact hx.tail (.capacity x (Bool.eq_false_iff.mpr hdata))
  have hrefused : (Entry.call (.changeRemote socket id addr cb) s.toCore).sets = false →
      AtomPath env s (s.note (.call (.changeRemote socket id addr cb) s.toCore)) := fun h =>
    .single (.found _ s rfl h)
  have hdone : (Entry.call (.changeRemote socket id addr cb) s.toCore).sets = true →
      AtomPath env s (changePath socket id addr cb
        (s.note (.call (.changeRemote socket id addr cb) s.toCore))) := fun h =>
    .single (.changePath socket id addr cb s h)
  unfold Entry.sets at hrefused hdone
  dsimp only at hrefused hdone
  generalize hx : s.note (.call (.changeRemote socket id addr cb) s.toCore) = x at hrefused hdone ⊢
  have hcore : x.toCore = s.toCore := by
    rw [← hx]
    rfl
  rw [← hcore] at hrefused hdone
  unfold udxStreamChangeRemote
  dsimp only
  split_ifs with hlive hconn hok
  · exact hrefused (by simp [hlive])
  · exact hrefused (by simp_all)
  · have hpath := hdone (by simp_all)
    unfold changePath at hpath
    rwa [if_neg (by simpa using hok)] at hpath
  · have hpath := hdone (by simp_all)
    unfold changePath at hpath
    rw [if_pos (by simpa using hok)] at hpath
    unfold changeRemote
    dsimp only at hpath ⊢
    split_ifs at hpath ⊢ <;> exact hreset hpath

/-- The call is not one to `udx_stream_change_remote`. -/
def Call.stays : Call → Bool
  | .changeRemote .. => false
  | _ => true

/-- One case for each other call that never calls back. -/
theorem runCall_atoms {c : Call} (hc : c.plain = true) (hstay : c.stays = true) (s : Stream)
    (hlog : .call c s.toCore ∈ s.log) : AtomPath env s (runCall env Hook.quiet c s).1 := by
  have hs : AtomPath env s s := .refl s
  cases c with
  | connect | send | destroy | teardown => cases hc
  | changeRemote => cases hstay
  | relayTo destinationClosed =>
    simp only [runCall, udxStreamRelayTo]
    split
    · exact hs
    · exact hs.tail (.relayTo s)
  | setKeepalive ms => exact hs.tail (.setKeepalive ms s hlog)
  | setRwndMax size => exact hs.calm ((Calm.refl s).quiet rfl rfl)
  | firewall set => exact hs.calm ((Calm.refl s).quiet rfl rfl)
  | recvStart =>
    simp only [runCall, udxStreamRecvStart]
    split
    · exact hs
    · exact hs.calm ((Calm.refl s).quiet rfl rfl)
  | recvStop =>
    simp only [runCall, udxStreamRecvStop]
    split
    · exact hs.calm ((Calm.refl s).quiet rfl rfl)
    · exact hs
  | readStart =>
    simp only [runCall, udxStreamReadStart]
    split
    · exact hs
    · exact hs.calm ((Calm.refl s).quiet rfl rfl)
  | readStop =>
    simp only [runCall, udxStreamReadStop]
    split
    · exact hs.calm ((Calm.refl s).quiet rfl rfl)
    · exact hs
  | writeResume set => exact hs.calm ((Calm.refl s).quiet rfl rfl)
  | write bufs onAck =>
    simp only [runCall, udxStreamWrite]
    split_ifs with hconn hend hbufs
    · exact hs
    · exact hs
    · exact hs
    · have hqueue := hs.tail (.queueWrite bufs onAck false s (by simpa using hconn)
        (fun h => hbufs (congrArg List.length h)) (Bool.eq_false_iff.mpr hend).symm
        ⟨_, s.toCore, hlog, rfl, rfl, rfl, .inl ⟨rfl, rfl⟩⟩)
      exact (hqueue.send (.sendPackets (.refl _) env)).calm (writeResult_calm _)
  | writeEnd bufs onAck =>
    have hqueue : ∀ l : List (List UInt8), l ≠ [] → s.st.connected = true → s.st.ending = false →
        AtomPath env s (writeResult (_udxStreamWrite env l onAck true (setEnding s))).1 := by
      intro l hl hconn hend
      have hend' : AtomPath env s (setEnding s) := hs.tail (.setEnding s hconn hend)
      have hwrite := hend'.tail (.queueWrite l onAck true (setEnding s) hconn hl rfl
        ⟨_, s.toCore, hlog, rfl, rfl, rfl, .inr ⟨rfl, bufs, rfl⟩⟩)
      exact (hwrite.send (.sendPackets (.refl _) env)).calm (writeResult_calm _)
    simp only [runCall, udxStreamWriteEnd]
    split_ifs with hconn hend hbufs
    · exact hs
    · exact hs
    · exact hqueue bufs (List.length_pos_iff.mp hbufs) (by simpa using hconn) (by simpa using hend)
    · exact hqueue [[]] (by simp) (by simpa using hconn) (by simpa using hend)

theorem PlainMove.atoms {s t : Stream} (h : PlainMove env s t) : AtomPath env s t := by
  cases h with
  | call c _ hc =>
    unfold Udx.call
    by_cases hstay : c.stays = true
    · have henter : AtomPath env s (s.note (.call c s.toCore)) :=
        .single (.found _ s rfl (by cases c <;> first | rfl | (cases hc; done) | cases hstay))
      exact (henter.trans (runCall_atoms env hc hstay _ List.mem_cons_self)).calm ((Calm.refl _).note rfl)
    · cases c with
      | changeRemote socket id addr cb =>
        exact (changeRemote_atoms env socket id addr cb s).calm ((Calm.refl _).note rfl)
      | _ => exact absurd rfl hstay
  | enter c _ hc hset => exact .single (.found _ s rfl hset)
  | result => exact .single (.calm ((Calm.refl s).note rfl))
  | returned => exact .single (.found _ s rfl rfl)
  | teardown => exact .single (.calm ((Calm.refl s).withIo rfl))

theorem closeUnlessDestroying_atoms (err : CloseErr) (s : Stream) :
    AtomPath env s (closeUnlessDestroying env err s) := by
  have hdrop : Calm s (dropTimewaitOnError err s) := by
    unfold dropTimewaitOnError dropTimewait
    split
    · exact (Calm.refl s).quiet rfl rfl
    · exact .refl s
  unfold closeUnlessDestroying
  dsimp only
  split
  · exact (AtomPath.refl s).calm hdrop
  · exact ((AtomPath.refl s).calm hdrop).tail (.close err _)

theorem ackOut_calm (s : Stream) : Calm s (ackOut env s) := by
  have hsend : Calm s (sendCopy env .ack s.peer.dest (ackDatagram env s) s) :=
    (Calm.refl s).sendCopy env (by simp [Entry.calm]) _
  unfold ackOut
  dsimp only
  split
  · exact (hsend.quiet (u := setEndedRemote _) rfl rfl).announce _ rfl
  · exact hsend

theorem CallMove.atoms {s t : Stream} (h : CallMove env s t) : AtomPath env s t := by
  have hs := Calm.refl s
  cases h with
  | plain hm => exact hm.atoms env
  | bind socket id addr _ hset => exact .single (.bind socket id addr s hset)
  | keepalive _ pre socket id addr hdead hpre hconn hlive hfound =>
    exact .single (.keepalive s pre socket id addr hdead hpre hconn hlive hfound)
  | message data onSend =>
    exact .single (.calm ((hs.sendCopy env (by simp [Entry.calm]) _).announce _ rfl))
  | deferAck => exact .single (.calm (hs.withRx _))
  | ackOut => exact .single (.calm (ackOut_calm env s))
  | closeEnded =>
    have hcheck : Calm s (checkEnded s) := (hs.check rfl _).check rfl _
    exact ((AtomPath.refl s).calm hcheck).trans (closeUnlessDestroying_atoms env .none _)
  | dropTimewait => exact .single (.calm (hs.quiet rfl rfl))
  | destroyStart _ hdead hconn => exact .single (.destroy s hdead hconn)
  | close err => exact .single (.close err s)
  | cancelPkt _ hcl => exact .single (.cancelPkt s hcl)
  | cancelSeq seq k _ hcl hk => exact .single (.cancelSeq seq k s hcl hk)
  | cancelChunk c rest _ hcl hc => exact .single (.cancelChunk c rest s hcl hc)
  | cancelDone k _ hcl hc => exact .single (.cancelDone k s hcl hc)
  | cancelQueued b rest _ hcl hb => exact .single (.cancelQueued b rest s hcl hb)
  | release _ hcl hpkt hc hq hout => exact .single (.release s hcl hpkt hc hq hout)

theorem CallPath.atoms {s t : Stream} (h : CallPath env s t) : AtomPath env s t := by
  induction h with
  | refl s => exact .refl s
  | tail _ hm ih => exact ih.trans (hm.atoms env)
  | connecting _ _ ih ih' =>
    have hopen : ∀ (c : Bool) (x : Stream), Calm x (setConnecting c x) := fun c x =>
      (Calm.refl x).quiet rfl rfl
    exact ((ih.calm (hopen true _)).trans ih').calm
      (((Calm.refl _).withRx _).trans (hopen _ _))

/-! ### Events -/

theorem rtoLook_sends (reoWnd k : ℕ) (s : Stream) : Sends s (rtoLook reoWnd k s) := by
  have hs := Sends.refl s
  unfold rtoLook
  split
  · exact hs.withTx rfl (.of_eq rfl rfl rfl)
  · split
    · have hprobe : Sends s (unprobeIfProbe k (s.withCc fun cc => { cc with lost := cc.lost + 1 })) :=
        (hs.withCc rfl).unprobeIfProbe k
      unfold rtoMarkLost
      dsimp only
      split
      · exact hprobe
      · exact hprobe.withTx rfl (.of_eq rfl rfl rfl)
    · exact hs

theorem rtoLoop_sends (reoWnd n : ℕ) (seq : SeqNo) {s t : Stream} (h : Sends s t) :
    Sends s (rtoLoop reoWnd n seq t) := by
  induction n generalizing seq t with
  | zero => exact h
  | succ n ih =>
    unfold rtoLoop
    split
    · exact ih _ h
    · exact ih _ (h.trans (rtoLook_sends reoWnd _ t))

theorem rtoResend_atoms {due : ℕ} {s : Stream} (ht : s.tm.timer = some (.rto, due))
    (hcur : s.ctl.cursor = none) :
    AtomPath env s (rtoResend env (rtoStart (clearTimer s))) ∧
      (rtoResend env (rtoStart (clearTimer s))).ctl = s.ctl := by
  have hscan : AtomPath env s (rtoScan (clearTimer s)) := .single (.rtoScan due s ht hcur)
  have hctl : (rtoScan (clearTimer s)).ctl = s.ctl := by
    unfold rtoScan
    exact (rtoLoop_sends _ _ _ (.refl _)).ctl.trans (rtoStart_spec _).2
  have hresend : rtoResend env (rtoStart (clearTimer s)) = sendPackets env (bbrOnRto
    ((rtoScan (clearTimer s)).withCc fun cc =>
      { cc with cwnd := (rtoScan (clearTimer s)).tx.inflightQueue.length + 1 })) := rfl
  rw [hresend]
  generalize rtoScan (clearTimer s) = x at hscan hctl ⊢
  have hloss : Aside x (bbrOnRto (x.withCc fun cc =>
      { cc with cwnd := x.tx.inflightQueue.length + 1 })) := ((Aside.refl x).withCc rfl).withBbr _
  generalize bbrOnRto (x.withCc fun cc => { cc with cwnd := x.tx.inflightQueue.length + 1 }) = y at hloss ⊢
  have hsend := SendPath.sendPackets (.aside (.refl x) hloss) env
  exact ⟨hscan.send hsend, (((Sends.refl y).sendPackets env).ctl.trans hloss.ctl).trans hctl⟩

/-- A call to `fireTimer` that gives up nothing. -/
theorem fireTimer_atoms {s : Stream} (he : Event.quiet s .timer = true)
    (hlog : ∃ pre, .event .timer pre ∈ s.log ∧ pre = s.toCore) (hcur : s.ctl.cursor = none) :
    AtomPath env s (fireTimer env Hook.quiet s) ∧ (fireTimer env Hook.quiet s).ctl = s.ctl := by
  have hs : AtomPath env s s := .refl s
  obtain ⟨pre, hmem, rfl⟩ := hlog
  unfold fireTimer
  cases ht : s.tm.timer with
  | none => exact ⟨hs, rfl⟩
  | some x =>
    obtain ⟨x, due⟩ := x
    dsimp only
    split
    · exact ⟨hs, rfl⟩
    next hdue =>
    have hcleared := fun hx => hs.tail (.clearTimer x due s ht hx)
    cases x with
    | none => exact ⟨hcleared (.inr (.inr rfl)), rfl⟩
    | rto =>
      have hcount : (s.tm.rtoCount + 1) % 2 ^ 8 ≤ UDX_MAX_RTO_TIMEOUTS := by
        simp only [Event.quiet, ht, Bool.or_eq_true, decide_eq_true_eq] at he
        exact he.resolve_left hdue
      rw [show runTimer env Hook.quiet .rto (clearTimer s) =
        udxRtoTimeout env Hook.quiet (clearTimer s) from rfl, udxRtoTimeout_quiet (s := clearTimer s) hcount]
      exact rtoResend_atoms env ht hcur
    | rackReo =>
      exact ⟨(hcleared (.inr (.inl rfl))).send (.udxRackReoTimeout (.refl _) env hcur),
        ((Sends.refl (clearTimer s)).udxRackReoTimeout env).ctl⟩
    | tlp =>
      have hpath : SendPath (clearTimer s) (udxTlpTimeout env (clearTimer s)) :=
        .udxTlpTimeout (.refl _) env s.toCore rfl rfl hmem
          ⟨due, ht, Nat.le_of_not_lt hdue⟩ hcur
      exact ⟨(hcleared (.inl rfl)).send hpath, ((Sends.refl (clearTimer s)).udxTlpTimeout env).ctl⟩
    | zwp =>
      exact ⟨hs.tail (.zwpTimeout due s ht), ((Sends.refl (clearTimer s)).udxZwpTimeout env).ctl⟩
    | keepalive =>
      exact ⟨hs.tail (.keepaliveTimeout due s ht),
        ((Sends.refl (clearTimer s)).udxKeepaliveTimeout env).ctl⟩

/-- One case for each event that calls nothing back. -/
theorem runEvent_atoms {e : Event} {s : Stream} (he : e.quiet s = true)
    (hlog : ∃ pre, .event e pre ∈ s.log ∧ pre = s.toCore) (hcur : s.ctl.cursor = none) :
    AtomPath env s (runEvent env Hook.quiet e s) ∧ (runEvent env Hook.quiet e s).ctl = s.ctl := by
  have hs : AtomPath env s s := .refl s
  cases e with
  | call | recv | relayClosed => cases he
  | timer => exact fireTimer_atoms env he hlog hcur
  | pacing =>
    show AtomPath env s (firePacing env s) ∧ (firePacing env s).ctl = s.ctl
    unfold firePacing
    split
    · exact ⟨hs, rfl⟩
    next due hr =>
    split
    · exact ⟨hs, rfl⟩
    · exact ⟨(hs.tail (.clearPacing s (by simp [hr]))).send (.pacingTimerTimeout (.refl _) env),
        ((Sends.refl (clearPacing s)).pacingTimerTimeout env).ctl⟩
  | prepare =>
    show AtomPath env s (firePrepare env s) ∧ (firePrepare env s).ctl = s.ctl
    unfold firePrepare onPendingPacketPrepare
    split
    · next hp =>
      exact ⟨hs.tail (.send (.newPacket (_sendNewPacket_spec env false s) (.inr (.inl hp)))),
        ((Sends.refl s)._sendNewPacket env false).ctl⟩
    · exact ⟨hs, rfl⟩
  | uvSent i =>
    refine ⟨hs.tail (.uvSent i s), ?_⟩
    show (uvSent i s).ctl = s.ctl
    unfold uvSent
    split
    · rfl
    · split <;> rfl
  | uvDone i =>
    refine ⟨hs.tail (.uvDone i s), ?_⟩
    show (uvDone i s).ctl = s.ctl
    unfold uvDone
    split <;> rfl
  | copySent i =>
    refine ⟨hs.tail (.copySent i s), ?_⟩
    show (copySent i s).ctl = s.ctl
    unfold copySent
    split
    · rfl
    · split <;> rfl
  | copyDone i =>
    show AtomPath env s (copyDone env Hook.quiet i s) ∧ (copyDone env Hook.quiet i s).ctl = s.ctl
    unfold copyDone
    cases hi : s.io.copies[i]? with
    | none => exact ⟨hs, rfl⟩
    | some u =>
      have hdrop := hs.calm ((Calm.refl s).quiet (u := dropCopy i s) rfl rfl)
      dsimp only
      split
      · next hk => simp [Event.quiet, hi, hk] at he
      · next onSend hk =>
        cases onSend with
        | false => exact ⟨hdrop, rfl⟩
        | true => simp [Event.quiet, hi, hk] at he
      · exact ⟨hdrop, rfl⟩
  | tick ms => exact ⟨hs.tail (.tick ms s), rfl⟩
  | timewaitTimeout =>
    show AtomPath env s (timewaitTimeout s) ∧ (timewaitTimeout s).ctl = s.ctl
    unfold timewaitTimeout
    split
    · exact ⟨hs, rfl⟩
    · split
      · exact ⟨hs, rfl⟩
      · exact ⟨hs.calm ((Calm.refl s).quiet rfl rfl), rfl⟩

theorem Control.idle_fields {c : Control} (h : c = c.idle) :
    c.cursor = none ∧ c.acking = [] ∧ c.ackDue = none := by
  rw [h]
  exact ⟨rfl, rfl, rfl⟩

theorem relayGone_atoms (s : Stream) : AtomPath env s (relayGone env s) := by
  have hclear : AtomPath env s (clearRelayTo s) := .single (.clearRelayTo s)
  unfold relayGone
  dsimp only
  split
  · exact hclear
  next hdead =>
  have hdrop : AtomPath env s (dropTimewait (clearRelayTo s)) :=
    hclear.calm ((Calm.refl _).quiet rfl rfl)
  split
  · exact hdrop.tail (.close .none _)
  · next hconn =>
    exact hdrop.tail (.destroy _ (Bool.eq_false_iff.mpr hdead) (by simpa using hconn))

theorem LoopMove.atoms {s t : Stream} (h : LoopMove env s t) : AtomPath env s t := by
  have hs := Calm.refl s
  cases h with
  | quiet e _ he hidle =>
    have hbegin : AtomPath env s (beginEvent e s) := .single (.begin e s hidle)
    have hquiet : e.quiet (beginEvent e s) = true := (beginEvent_quiet e e s).trans he
    obtain ⟨hcur, hack, hdue⟩ := Control.idle_fields hidle
    obtain ⟨hrun, hctl⟩ := runEvent_atoms env hquiet ⟨_, List.mem_cons_self, rfl⟩ hcur
    have hctl' : (runEvent env Hook.quiet e (beginEvent e s)).ctl = s.ctl := hctl
    exact (hbegin.trans hrun).tail (.finish _ (by rw [hctl', hcur])
      (.inr ⟨by rw [hctl', hack], by rw [hctl', hdue]⟩))
  | begin e _ hidle => exact .single (.begin e s hidle)
  | finish _ hcur hset => exact .single (.finish s hcur (hset.imp_right fun h => ⟨h.1, h.2.1⟩))
  | asked => exact .single (.calm hs.asked)
  | callback c _ hc => exact .single (.calm (hs.note (by rcases hc with rfl | rfl <;> rfl)))
  | giveUp _ due ht => exact .single (.giveUp due s ht)
  | copyGone i => exact .single (.calm (hs.quiet rfl rfl))
  | destroySent i =>
    have hdrop : AtomPath env s (dropCopy i s) := .single (.calm (hs.quiet rfl rfl))
    exact hdrop.tail (.close .none _)
  | relayGone => exact relayGone_atoms env s
  | relay seq _ hr hdead hp => exact .single (.relay seq s hr hdead hp)
  | timewait type =>
    have htw : Calm s (processTimewait env type s) := by
      unfold processTimewait
      split
      · split
        · exact hs.sendCopy env rfl _
        · exact hs
      · exact hs
    exact .single (.calm htw)

/-! ### Datagrams -/

theorem announceRead_calm (data : List UInt8) {s t : Stream} (h : Calm s t) :
    Calm s (announceRead data t) := by
  unfold announceRead
  split
  · exact h.note rfl
  · exact h.note rfl

theorem RecvMove.atoms {s t : Stream} (h : RecvMove s t) : AtomPath env s t := by
  have hs := Calm.refl s
  have htake : ∀ {x : Stream}, Calm s x → Calm s (takeNext x) := fun hx => hx.withRx _
  cases h with
  | packet h d data same pre _ hev hparse hid hpay hdead hr hidle =>
    exact .single (.packet _ s rfl rfl hr hdead hidle.2.1 hidle.1)
  | take p => exact .single (.calm (announceRead_calm _ (htake (hs.note rfl))))
  | hold p =>
    have hhold : Calm s (holdPacket p.h.type p.h.seq p.data s) := by
      unfold holdPacket
      split
      · exact hs
      · exact (hs.note rfl).withRx _
    exact .single (.calm hhold)
  | endBit p => exact .single (.calm (hs.quiet rfl rfl))
  | message d => exact .single (.calm (hs.note rfl))
  | drainStart b rest => exact .single (.calm (hs.quiet rfl rfl))
  | drainTake b rest =>
    have hdrain : Calm s (setDraining rest s) := hs.quiet rfl rfl
    have htaken : Calm s (Udx.drainTake b rest s) := by
      unfold Udx.drainTake
      dsimp only
      split
      · exact announceRead_calm _ (htake hdrain)
      · exact htake hdrain
    exact .single (.calm htaken)

theorem updateSendWindow_fields (h : Header) (s : Stream) :
    (updateSendWindow h s).ctl = s.ctl ∧ (updateSendWindow h s).st = s.st ∧
      (updateSendWindow h s).tx = s.tx := by
  unfold updateSendWindow stopZwp
  split_ifs <;> exact ⟨rfl, rfl, rfl⟩

theorem windowStage_atoms {p : RxPacket} {s : Stream} (hp : s.ctl.packet = some p)
    (hdead : s.st.dead = false) (hack : ¬ seqCompare s.tx.seq p.h.ack < 0) :
    AtomPath env s (windowStage p s) := by
  have hwin : AtomPath env s (updateSendWindow p.h (setProcessing true s)) :=
    .single (.window p s hp hdead hack)
  obtain ⟨hctl, hst, htx⟩ := updateSendWindow_fields p.h (setProcessing true s)
  have hpacket : (updateSendWindow p.h (setProcessing true s)).ctl.packet = some p := by
    rw [hctl]
    exact hp
  have hlive : (updateSendWindow p.h (setProcessing true s)).st.dead = false := by
    rw [hst]
    exact hdead
  unfold windowStage
  dsimp only
  split
  · next hchange =>
    exact hwin.tail (.remoteChanged p _ hpacket hlive (by rw [htx]; exact hack) hchange.1 hchange.2)
  · exact hwin

theorem bbrPacket_calm (p : RxPacket) (delivered : ℕ) (s : Stream) :
    Calm s (bbrPacket env p delivered s) := by
  have hgen : ∀ (n : ℕ) (m : ℤ), Calm s (udxRateGen n m s) := by
    intro n m
    have hclear : Calm s (clearAppLimited s) := by
      unfold clearAppLimited
      split
      · exact (Calm.refl s).withCc (f := fun cc => { cc with appLimited := 0 }) ⟨rfl, rfl⟩
      · exact .refl s
    have hmark : Calm s (markDelivered n (clearAppLimited s)) := by
      unfold markDelivered
      split
      · exact hclear.withCc ⟨rfl, rfl⟩
      · exact hclear
    have hrs : ∀ rs : RateSample, Calm s ((markDelivered n (clearAppLimited s)).withCtl
        fun ctl => { ctl with rs := rs }) := fun rs => hmark.quiet rfl rfl
    have hkeep : ∀ (rs : RateSample) {x : Stream}, Calm s x → Calm s (keepRate rs x) := by
      intro rs x hx
      unfold keepRate
      split_ifs
      · exact hx
      · exact hx.withCc ⟨rfl, rfl⟩
      · exact hx
    unfold udxRateGen
    exact hkeep _ (hrs _)
  unfold bbrPacket
  split
  · exact (hgen _ _).aside ((Aside.refl _).bbrMain env _)
  · exact .refl s

theorem finishPacket_atoms (p : RxPacket) (delivered : ℕ) {s : Stream}
    (hcur : s.ctl.cursor = none) : AtomPath env s (finishPacket env p delivered s) := by
  have hcalm := bbrPacket_calm env p delivered s
  have hbbr : AtomPath env s (bbrPacket env p delivered s) := .single (.calm hcalm)
  have hcur' := hcalm.cursor.trans hcur
  unfold finishPacket
  generalize bbrPacket env p delivered s = x at hbbr hcur' ⊢
  have hsend := hbbr.send (.sendPackets (.refl x) env)
  have hctl := ((Sends.refl x).sendPackets env).ctl
  exact hsend.tail (.processed _ (by rw [hctl, hcur']))

theorem chunkStage_atoms {c : Chunk} {rest : List Chunk} {s t : Stream}
    (h : AtomPath env s (ackBytes c rest t)) : AtomPath env s (chunkStage c rest t) := by
  unfold chunkStage
  dsimp only
  split
  · have hclear : Calm (ackBytes c rest t) (clearHighWatermark (ackBytes c rest t)) :=
      (Calm.refl _).quiet rfl rfl
    exact h.calm (hclear.announce _ rfl)
  · exact h

theorem AckMove.atoms {s t : Stream} (h : AckMove env s t) : AtomPath env s t := by
  have hs := Calm.refl s
  cases h with
  | window p _ hp hdead hack => exact windowStage_atoms env hp hdead hack
  | ackInit p _ hp hdead hproc hprior _ _ hcur =>
    exact .single (.ackInit p s hp hdead hproc hprior hcur)
  | ackAbsent p c _ hp hdead hc hlt hk => exact .single (.ackAbsent p c s hp hdead hc hlt hk)
  | sackAbsent c _ hc hk => exact .single (.sackAbsent c s hc hk)
  | ackTake p c k _ hp hdead hc hlt hk hidle =>
    exact .single (.ackTake p c k s hp hdead hc hlt hk hidle)
  | sackTake c k _ hc hk hidle => exact .single (.sackTake c k s hc hk hidle)
  | sackDead c k x rest _ hc hk hdead hb =>
    exact chunkStage_atoms env (.single (.sackDead c k x rest s hc hk hdead hb))
  | chunk c rest _ hc hdue => exact chunkStage_atoms env (.single (.chunk c rest s hc hdue))
  | complete b sack _ hdead hb => exact .single (.complete b sack s hdead hb)
  | ackDone k _ hk hc hdue => exact .single (.ackDone k s hk hc hdue)
  | ackDrop k _ hdead => exact .single (.ackDrop k s hdead)
  | advance p c _ hp hc hend hdead hidle =>
    exact .single (.advance p s hp ⟨c, hc, .inl hend⟩ (.inr hidle))
  | advanceAll p c _ hp hc hend hdead hidle =>
    have hadv : AtomPath env s (advanceRemoteAcked p s) :=
      .single (.advance p s hp ⟨c, hc, .inl hend⟩ (.inr hidle))
    have hcur : (advanceRemoteAcked p s).ctl.cursor = none := by
      unfold advanceRemoteAcked
      dsimp only
      split <;> rfl
    exact (hadv.calm ((Calm.refl _).quiet (u := setSacksLeft [] _) rfl rfl)).send
      (.settleAcks (.refl _) env _ _ hcur)
  | advanceEnded p _ hp hc hdead hended hidle =>
    obtain ⟨c, hc⟩ := Option.isSome_iff_exists.mp hc
    have hadv : AtomPath env s (advanceRemoteAcked p s) :=
      .single (.advance p s hp ⟨c, hc, .inr (.inl hended)⟩ (.inr hidle))
    have hst : (advanceRemoteAcked p s).st = s.st := by
      unfold advanceRemoteAcked
      dsimp only
      split <;> rfl
    exact hadv.tail (.timerEnded _ (by rw [hst]; exact hdead) (by rw [hst]; exact hended.1))
  | advanceDead p _ hp hc hdead =>
    obtain ⟨c, hc⟩ := Option.isSome_iff_exists.mp hc
    exact .single (.advance p s hp ⟨c, hc, .inr (.inr hdead)⟩ (.inl hdead))
  | sackNext rest => exact .single (.calm (hs.quiet rfl rfl))
  | settle p _ hp hdead hproc hcur => exact (AtomPath.refl s).send (.settleAcks (.refl s) env _ _ hcur)
  | finishPacket p delivered _ hp hdead hcur => exact finishPacket_atoms env p delivered hcur

theorem Move.atoms {s t : Stream} (h : Move env s t) : AtomPath env s t := by
  cases h with
  | loop h => exact h.atoms env
  | recv h => exact h.atoms env
  | ack h => exact h.atoms env

variable {env}

/-- What holds at first and along every step of the sender holds in every
reachable state. -/
theorem Reach.atoms {cfg : Config} {I : Stream → Prop} (hinit : I (Udx.init env cfg))
    (hI : ∀ {s t}, Atom env s t → I s → I t) {s : Stream} (h : Reach env cfg s) : I s :=
  h.preserves (I := I) hinit (fun hm => (hm.atoms env).preserves hI)
    fun hc => (hc.atoms env).preserves hI

end Udx
