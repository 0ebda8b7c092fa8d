/-
# Where packets go

A packet is bound to the remote of the stream when the first byte is put into
it, or when it is sent where it has none, and is never bound to another. Only
`udx_stream_connect` and `udx_stream_change_remote` set the remote.

Key definitions: `Peer.path`, `PathDone`, `SockAddr.via`.
Key theorems: `Loads.remotes`, `Atom.peer`, `changePath_peer`, `connectBind_peer`.
-/
import Udx.Numbered
import Udx.Queues
import Udx.Remote

namespace Udx

open Serial

/-! ### The packets -/

/-- The packet in construction has a payload, and so an address. -/
def Tx.started (t : Tx) : Bool := hasFlag t.pktHeaderFlag UDX_HEADER_DATA

theorem remotes_of_packing {t u : Tx} (h : u.packing = t.packing) :
    u.pkt = t.pkt ∧ u.started = t.started ∧ ∀ k, (u.pkts k).remote = (t.pkts k).remote :=
  ⟨(congrArg Tx.pkt h :), (congrArg Tx.started h :), fun k => (congrArg (fun x : Tx => (x.pkts k).remote) h :)⟩

theorem fillSlice_started {b : ℕ} {s : Stream} (h : s.tx.started = true) : (fillSlice b s).tx.started = true :=
  fillSlice_keepsFlags h

/-- A slice binds the packet in construction at most, where this is its first
payload. -/
theorem fillSlice_remotes (b : ℕ) (s : Stream) (k : ℕ) :
    ((fillSlice b s).tx.pkts k).remote = (s.tx.pkts k).remote ∨
      k = s.tx.pkt ∧ ((fillSlice b s).tx.pkts k).remote = s.peer.remote ∧
        s.tx.started = false ∧ (fillSlice b s).tx.started = true := by
  have hpack : ∀ len, ((s.tx.packetize b len).pkts s.tx.pkt).remote = (s.tx.pkts s.tx.pkt).remote := by
    intro len
    unfold Tx.packetize
    exact (congrArg Packet.remote (Function.update_self s.tx.pkt _ s.tx.pkts) :)
  by_cases hk : k = s.tx.pkt
  · subst hk
    obtain ⟨-, -, hflag⟩ := fillSlice_packet b s
    by_cases hfirst : (decide (0 < min s.tx.pktCapacity (s.tx.wbufs b).writesz) && !s.tx.started) = true
    · right
      have hidle : s.tx.started = false := by
        rw [Bool.and_eq_true, Bool.not_eq_true'] at hfirst
        exact hfirst.2
      refine ⟨rfl, ?_, hidle, ?_⟩
      · have hcore := startData_core
          (s.withTx fun tx => tx.packetize b (min s.tx.pktCapacity (s.tx.wbufs b).writesz))
        have hslice : fillSlice b s = startData
            (s.withTx fun tx => tx.packetize b (min s.tx.pktCapacity (s.tx.wbufs b).writesz)) := if_pos hfirst
        rw [hslice]
        refine (congrArg (fun c => (c.tx.pkts s.tx.pkt).remote) hcore :).trans ?_
        exact (congrArg Packet.remote (Tx.setPkt_self ..) :)
      · unfold Tx.started at hfirst ⊢
        rw [hflag, if_pos hfirst, hasFlag_or, Bool.or_eq_true]
        exact .inr (by decide)
    · left
      have hslice : fillSlice b s =
          (s.withTx fun tx => tx.packetize b (min s.tx.pktCapacity (s.tx.wbufs b).writesz)) := if_neg hfirst
      rw [hslice]
      exact hpack _
  · exact .inl (congrArg Packet.remote ((fillSlice_beside b s).2.1 k hk))

/-- What a step does to the remotes of the packets: it binds the packet in
construction at most, which starts it, and where that is sent a fresh one takes
its place. -/
theorem Loads.remotes {s t : Stream} (h : Loads s t) :
    t.tx.pkt = s.tx.pkt ∧ (s.tx.started = true → t.tx.started = true) ∧
      (∀ k, (t.tx.pkts k).remote = (s.tx.pkts k).remote ∨
        k = s.tx.pkt ∧ (t.tx.pkts k).remote = s.peer.remote ∧ s.tx.started = false ∧ t.tx.started = true) ∨
    NewPacket s t ∧ t.tx.pkt = s.tx.pkt + 1 ∧ (t.tx.pkts (s.tx.pkt + 1)).remoteAddrLen = 0 ∧
      (t.tx.pkts s.tx.pkt).remote = s.toCore.nextRemote ∧
      ∀ k, k ≠ s.tx.pkt + 1 → k ≠ s.tx.pkt → (t.tx.pkts k).remote = (s.tx.pkts k).remote := by
  have hkept : ∀ {u : Tx}, u.packing = s.tx.packing → u.pkt = s.tx.pkt ∧
      (s.tx.started = true → u.started = true) ∧ ∀ k, (u.pkts k).remote = (s.tx.pkts k).remote ∨
        k = s.tx.pkt ∧ (u.pkts k).remote = s.peer.remote ∧ s.tx.started = false ∧ u.started = true := by
    intro u hu
    obtain ⟨hpkt, hstarted, hpkts⟩ := remotes_of_packing hu
    exact ⟨hpkt, fun hs => hstarted.trans hs, fun k => .inl (hpkts k)⟩
  cases h with
  | same h => exact .inl (hkept (Tx.packing_of_load h.load))
  | close _ _ hload => exact .inl (hkept hload)
  | destroy pre _ _ hload => exact .inl (hkept (Tx.packing_of_load hload))
  | finish | prepare => exact .inl (hkept rfl)
  | capacity => exact .inl ⟨rfl, id, fun k => .inl rfl⟩
  | slice b => exact .inl ⟨(fillSlice_beside b s).1, fillSlice_started, fillSlice_remotes b s⟩
  | shift b rest => exact .inl ⟨rfl, shiftWrite_keepsFlags, fun k => .inl rfl⟩
  | newPacket h =>
    right
    obtain ⟨p, hp, hpkt, hself, hnew, hother⟩ := h.packets
    refine ⟨h, hpkt, (congrArg Packet.remoteAddrLen hnew :), ?_, fun k hnext hk => ?_⟩
    · exact (congrArg Packet.remote hself :).trans hp.remote
    · exact (congrArg Packet.remote (hother k hnext hk) :)
  | queueWrite bufs onAck isEnd hbufs h hacking hload =>
    exact .inl (hkept ((Tx.packing_of_load hload).trans (queueWrite_packing ..)))
  | take c k hk h hload => exact .inl (hkept ((Tx.packing_of_load hload).trans rfl))
  | takeDead c k x rest pre hk hb h hdead hload => exact .inl (hkept ((Tx.packing_of_load hload).trans rfl))
  | count c rest hc h hload => exact .inl (hkept ((Tx.packing_of_load hload).trans rfl))

/-! ### The stream -/

/-- The socket and the remote of a stream, and how far a change of them is. -/
def Peer.path (p : Peer) : Peer := { p with relayTo := false, relayed := false }

/-- A change of the remote is over. -/
structure PathDone (s t : Stream) : Prop where
  changing : s.peer.remoteChanging = true
  peer : t.peer = { s.peer with remoteChanging := false }
  acked : ∃ p, s.ctl.packet = some p ∧ ¬ seqCompare s.tx.seq p.h.ack < 0 ∧
    seqDiff p.h.ack s.peer.seqOnRemoteChanged ≥ 0

section

variable (env : Env)

theorem closeStart_peer (err : CloseErr) (s : Stream) :
    (closeStart env err s).peer.path = s.peer.path := by
  have hdead : (markDead (s.check .closeTwice (s.st.closed = false))).toCore = s.toCore := by
    rw [markDead_core, Stream.check_core]
  have hpeer : (markDead (s.check .closeTwice (s.st.closed = false))).peer = s.peer :=
    (congrArg Core.peer hdead :)
  unfold closeStart closeBegin setClosed streamTimewait Stream.announce
  dsimp only
  split <;> split <;> exact congrArg Peer.path hpeer

theorem sendProbe_peer (s : Stream) : (sendProbe env s).peer = s.peer :=
  (congrArg Core.peer (sendProbe_core env s) :)

/-- A step that neither sets the remote nor ends a change of it keeps it. -/
theorem Atom.peer {s t : Stream} (h : Atom env s t) (hkeep : ¬ Sets env s t) (hdone : ¬ PathDone s t) :
    t.peer.path = s.peer.path := by
  have hannounce : ∀ (x : Stream) (on : Bool) (c : Callback), (x.announce on c).peer = x.peer := by
    intro x on c
    unfold Stream.announce
    split <;> rfl
  have hbytes : ∀ (c : Chunk) (rest : List Chunk) (x : Stream), (ackBytes c rest x).peer = x.peer :=
    fun c rest x => (congrArg Core.peer (ackBytes_core c rest x) :)
  have htake : ∀ (c : SeqNo) (k : ℕ) (sack : Bool) (x : Stream), (Udx.ackTake c k sack x).peer = x.peer := by
    intro c k sack x
    have hcheck := Stream.check_core .cirbufNull (x.tx.outgoingLive = true) x
    have hbeside := takeAcked_besideCc c k sack (x.check .cirbufNull (x.tx.outgoingLive = true))
    unfold Udx.ackTake
    exact (congrArg (·.peer) hbeside :).trans (congrArg Core.peer hcheck :)
  cases h with
  | changePath socket id addr cb _ hset => exact absurd (.changePath socket id addr cb s hset) hkeep
  | bind socket id addr _ hset => exact absurd (.bind socket id addr s hset) hkeep
  | remoteChanged p _ hp hdead hack hchanging hge =>
    exact absurd ⟨hchanging, hannounce _ _ _, p, hp, hack, hge⟩ hdone
  | calm h => exact congrArg Peer.path h.peer
  | send h => exact congrArg Peer.path h.outside.2.1
  | setKeepalive ms =>
    unfold udxStreamSetKeepalive
    dsimp only
    split <;> rfl
  | queueWrite bufs onAck isEnd =>
    have hprobe := sendProbe_peer env (s.withTx fun tx => tx.queueWrite bufs onAck isEnd)
    unfold Udx.queueWrite probeWindow
    dsimp only
    split
    · exact congrArg Peer.path hprobe
    · rfl
  | keepalive =>
    unfold connectKeepalive
    dsimp only
    split <;> rfl
  | destroy =>
    rcases destroyStart_core env s with ⟨-, heq⟩ | ⟨-, hcore, -⟩
    · rw [heq]
      exact (closeStart_peer env .none _).trans (congrArg (fun c => c.peer.path) (setDestroying_core s) :)
    · exact (congrArg (fun c => c.peer.path) hcore :)
  | close err => exact closeStart_peer env err s
  | cancelPkt =>
    exact (congrArg (fun c => c.peer.path)
      (Stream.check_core .packetHeld ((s.tx.pkts s.tx.pkt).refCount = 1) s) :)
  | cancelChunk c rest =>
    have hcore := countBytes_core c.wbuf c.len true (setCancelling rest s)
    exact congrArg Peer.path ((hannounce ..).trans (congrArg Core.peer hcore :))
  | cancelQueued b rest =>
    have hcore := countBytes_core b ((s.tx.wbufs b).buf.length - (s.tx.wbufs b).bytesAcked) true
      (shiftWriteQueue rest s)
    exact congrArg Peer.path ((hannounce ..).trans (congrArg Core.peer hcore :))
  | release =>
    unfold releaseHandles udxStreamReadStop
    split <;> rfl
  | keepaliveTimeout =>
    have hcheck := Stream.check_core .keepaliveIdle (s.tx.seq = s.tx.remoteAcked) (Udx.clearTimer s)
    exact congrArg Peer.path ((sendProbe_peer env _).trans (congrArg Core.peer hcheck :))
  | zwpTimeout => exact congrArg Peer.path ((Sends.refl (Udx.clearTimer s)).udxZwpTimeout env).peer
  | rtoScan =>
    have hstart := rtoStart_core (Udx.clearTimer s)
    unfold Udx.rtoScan
    exact congrArg Peer.path ((rtoLoop_sends _ _ _ (.refl _)).peer.trans (congrArg Core.peer hstart :))
  | giveUp =>
    have hstart : (rtoStart (Udx.clearTimer s)).peer = s.peer :=
      (congrArg Core.peer (rtoStart_core (Udx.clearTimer s)) :)
    have hdrop : (dropTimewaitOnError .timedOut (rtoStart (Udx.clearTimer s))).peer = s.peer := by
      unfold dropTimewaitOnError
      split <;> exact hstart
    unfold rtoGiveUp closeUnlessDestroying
    dsimp only
    split
    · exact congrArg Peer.path hdrop
    · exact (closeStart_peer env ..).trans (congrArg Peer.path hdrop)
  | uvSent i =>
    unfold Udx.uvSent
    split
    · rfl
    · split <;> rfl
  | uvDone i =>
    unfold Udx.uvDone
    split <;> rfl
  | copySent i =>
    unfold Udx.copySent
    split
    · rfl
    · split <;> rfl
  | window p =>
    unfold updateSendWindow stopZwp
    split_ifs <;> rfl
  | ackAbsent p c =>
    exact (congrArg (fun c => c.peer.path)
      (Stream.check_core .cirbufNull (s.tx.outgoingLive = true) (setCursor (some (c + 1)) s)) :)
  | sackAbsent =>
    exact (congrArg (fun c => c.peer.path) (Stream.check_core .cirbufNull (s.tx.outgoingLive = true) s) :)
  | ackTake p c k => exact congrArg Peer.path (htake c k false (setCursor (some (c + 1)) s))
  | sackTake c k => exact congrArg Peer.path (htake c k true s)
  | sackDead c k x rest =>
    exact congrArg Peer.path ((hbytes x rest (Udx.ackTake c k true s)).trans (htake c k true s))
  | chunk c rest => exact congrArg Peer.path (hbytes c rest s)
  | complete b sack => exact congrArg Peer.path (hannounce (clearAckDue s) _ _)
  | ackDone k =>
    unfold Udx.ackDone ackEnd
    split <;> rfl
  | advance p =>
    unfold advanceRemoteAcked
    dsimp only
    split <;> rfl
  | timerEnded =>
    unfold Udx.timerEnded startKeepalive
    split_ifs <;> rfl
  | found | begin | finish | packet | relayTo | clearRelayTo | capacity | setEnding | cancelSeq | cancelDone
  | clearTimer | clearPacing | tick | relay | ackInit | ackDrop | processed => rfl

end

/-! ### Setting the remote -/

/-- An address as a stream keeps it whose socket is `via`. -/
def SockAddr.via (via : Option Socket) (a : SockAddr) : SockAddr :=
  if via.any (·.family == .inet6) && a.family == .inet then addrToV6 a else a

theorem setRemoteAddr_peer (via : Option Socket) (addr : SockAddr) (s : Stream) :
    ∃ len, (setRemoteAddr via addr s).1.peer = { s.peer with
      remoteAddr := if addr.accepted then addr.via via else s.peer.remoteAddr, remoteAddrLen := len } := by
  unfold setRemoteAddr SockAddr.accepted SockAddr.via
  dsimp only
  split_ifs <;> first | exact ⟨_, rfl⟩ | simp_all

/-- `udx_stream_change_remote` maps the address for the socket the stream had
before. -/
theorem changePath_peer (socket : Socket) (id : SeqNo) (addr : SockAddr) (cb : Bool) (s : Stream) :
    ∃ len, (changePath socket id addr cb s).peer =
      if addr.accepted then
        let peer : Peer := { s.peer with
          remoteId := id, socket := some socket, remoteAddr := addr.via s.peer.socket, remoteAddrLen := len }
        if seqOfChange s.tx ≠ s.tx.remoteAcked then
          { peer with remoteChanging := true, seqOnRemoteChanged := seqOfChange s.tx }
        else peer
      else { s.peer with remoteAddrLen := len } := by
  obtain ⟨len, hpeer⟩ := setRemoteAddr_peer s.peer.socket addr s
  have hok := setRemoteAddr_ok addr s s.peer.socket
  have hcore := setRemoteAddr_core s.peer.socket addr s
  refine ⟨len, ?_⟩
  unfold changePath
  dsimp only
  rw [hok]
  generalize (setRemoteAddr s.peer.socket addr s).1 = r at hpeer hcore ⊢
  have htx : r.tx = s.tx := by rw [hcore]; rfl
  by_cases haddr : addr.accepted = true
  · rw [if_pos haddr, if_pos haddr]
    rw [if_pos haddr] at hpeer
    rw [show (r.withPeer fun peer => { peer with remoteId := id, socket := some socket }).tx = s.tx from htx]
    split_ifs
    · exact (congrArg (fun peer : Peer => { peer with
        remoteId := id, socket := some socket, remoteChanging := true
        seqOnRemoteChanged := seqOfChange s.tx }) hpeer : _)
    · exact congrArg (fun peer : Peer => { peer with remoteId := id, socket := some socket }) hpeer
  · rw [if_neg haddr, if_neg haddr]
    rw [if_neg haddr] at hpeer
    exact hpeer

theorem connectBind_peer (env : Env) (socket : Socket) (id : SeqNo) (addr : SockAddr) (s : Stream) :
    (∃ len, (connectBind env socket id addr s).1.peer = { s.peer with
      remoteId := id, socket := some socket, remoteAddrLen := len
      remoteAddr := if addr.accepted then addr.via (some socket) else s.peer.remoteAddr }) ∧
    (connectBind env socket id addr s).1.log = s.log := by
  let x : Stream := (s.withSt fun st => { st with connected := true }).withPeer fun peer =>
    { peer with remoteId := id, socket := some socket }
  obtain ⟨len, hpeer⟩ := setRemoteAddr_peer (some socket) addr x
  have hlog : (setRemoteAddr (some socket) addr x).1.log = s.log := by
    rw [setRemoteAddr_core]
    rfl
  unfold connectBind
  dsimp only
  split
  · exact ⟨⟨len, hpeer⟩, hlog⟩
  · exact ⟨⟨len, hpeer⟩, hlog⟩

end Udx
