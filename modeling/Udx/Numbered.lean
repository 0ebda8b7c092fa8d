/-
# Every packet that takes a number carries DATA or END

A packet is sent when it is full, when it ends the stream or when the prepare
handle finds data in it, and then it carries DATA or END. The exception is
the tail-loss probe, which is sent whatever the write queue has put in it:
where that is only empty buffers it carries neither, and the receiver never
acknowledges its number.

Key definitions: `Tx.carries`, `Entry.emptyProbe`, `Flagged`.
Key theorems: `fillPacket_flags`, `Loads.numbered`, `Reach.flagged`.
-/
import Udx.Loads

namespace Udx

open Serial

/-! ### Flags -/

theorem hasFlag_or (x a b : UInt8) : hasFlag (x ||| a) b = (hasFlag x b || hasFlag a b) := by
  have hdist : (x ||| a) &&& b = (x &&& b) ||| (a &&& b) := by
    simp only [← UInt8.toBitVec_inj, UInt8.toBitVec_or, UInt8.toBitVec_and]
    ext i
    simp [Bool.and_or_distrib_right]
  unfold hasFlag
  rw [hdist, Bool.eq_iff_iff]
  simp [or_iff_not_imp_left]

theorem hasFlag_or_flag (x a b : UInt8) : hasFlag x (a ||| b) = (hasFlag x a || hasFlag x b) := by
  have hcomm : ∀ y z : UInt8, hasFlag y z = hasFlag z y := fun y z => by
    unfold hasFlag
    rw [UInt8.and_comm]
  rw [hcomm, hasFlag_or, hcomm a, hcomm b]

theorem hasFlag_dataOrEnd (x : UInt8) : hasFlag x UDX_HEADER_DATA_OR_END =
    (hasFlag x UDX_HEADER_DATA || hasFlag x UDX_HEADER_END) := hasFlag_or_flag ..

theorem hasFlag_data : hasFlag UDX_HEADER_DATA UDX_HEADER_DATA_OR_END = true := by decide

theorem hasFlag_end : hasFlag UDX_HEADER_END UDX_HEADER_DATA_OR_END = true := by decide

/-! ### Filling a packet -/

/-- Write buffer `b` is packetized to its end. -/
def WriteBuf.packed (b : WriteBuf) : Bool := decide (b.bytesAcked + b.bytesInflight = b.buf.length)

/-- Past the buffers with nothing left to packetize, the queue has one that
has bytes left, or that ends the stream. -/
def Tx.carries (t : Tx) : List ℕ → Bool
  | [] => false
  | b :: rest => decide ((t.wbufs b).writesz > 0) ||
      (t.wbufs b).packed && ((t.wbufs b).isWriteEnd || t.carries rest)

/-- A packet with no data yet has room for some. -/
def Tx.Room (t : Tx) : Prop := hasFlag t.pktHeaderFlag UDX_HEADER_DATA = false → 0 < t.pktCapacity

theorem Tx.carries_congr {t u : Tx} (h : u.wbufs = t.wbufs) (queue : List ℕ) :
    u.carries queue = t.carries queue := by
  induction queue with
  | nil => rfl
  | cons b rest ih =>
    unfold Tx.carries
    rw [h, ih]

/-- A slice of no bytes changes no write buffer. -/
theorem packetize_zero (t : Tx) (b : ℕ) : (t.packetize b 0).wbufs = t.wbufs :=
  Function.update_eq_self b t.wbufs

/-- A packet in construction that has room or data, with its flags. -/
theorem fillSlice_room {b : ℕ} {s : Stream} (h : s.tx.Room) : (fillSlice b s).tx.Room := by
  obtain ⟨hcap, -, hflag⟩ := fillSlice_packet b s
  intro hdata
  rw [hflag] at hdata
  split at hdata
  · rw [hasFlag_or] at hdata
    simp [hasFlag, UDX_HEADER_DATA] at hdata
  · next hlen =>
    have hpos := h hdata
    simp only [hdata, Bool.not_false, Bool.and_true, decide_eq_true_eq, Nat.not_lt] at hlen
    rw [hcap]
    omega

theorem fillSlice_keepsFlags {b : ℕ} {s : Stream} {f : UInt8}
    (h : hasFlag s.tx.pktHeaderFlag f = true) : hasFlag (fillSlice b s).tx.pktHeaderFlag f = true := by
  obtain ⟨-, -, hflag⟩ := fillSlice_packet b s
  rw [hflag]
  split
  · rw [hasFlag_or, h, Bool.true_or]
  · exact h

theorem shiftWrite_wbufs (t : Tx) (b : ℕ) (rest : List ℕ) : (t.shiftWrite b rest).wbufs = t.wbufs := by
  unfold Tx.shiftWrite
  dsimp only

theorem shiftWrite_keepsFlags {t : Tx} {b : ℕ} {rest : List ℕ} {f : UInt8}
    (h : hasFlag t.pktHeaderFlag f = true) : hasFlag (t.shiftWrite b rest).pktHeaderFlag f = true := by
  unfold Tx.shiftWrite
  dsimp only
  split
  · rw [hasFlag_or, h, Bool.true_or]
  · exact h

theorem shiftWrite_room {t : Tx} {b : ℕ} {rest : List ℕ} (h : t.Room) : (t.shiftWrite b rest).Room := by
  intro hdata
  apply h
  by_contra hne
  have hkeep : hasFlag (t.shiftWrite b rest).pktHeaderFlag UDX_HEADER_DATA = true :=
    shiftWrite_keepsFlags (by simpa using hne)
  rw [hdata] at hkeep
  cases hkeep

theorem fillPacket_keepsFlags (queue : List ℕ) {s : Stream} {f : UInt8}
    (h : hasFlag s.tx.pktHeaderFlag f = true) :
    hasFlag (fillPacket queue s).tx.pktHeaderFlag f = true := by
  induction queue generalizing s with
  | nil => exact h
  | cons b rest ih =>
    have hslice := fillSlice_keepsFlags (b := b) h
    unfold fillPacket
    dsimp only
    split_ifs
    · exact h
    · exact ih (shiftWrite_keepsFlags hslice)
    · exact hslice

/-- What the queue carries makes the packet one with DATA or END. -/
theorem fillPacket_flags (queue : List ℕ) {s : Stream} (hroom : s.tx.Room)
    (h : hasFlag s.tx.pktHeaderFlag UDX_HEADER_DATA_OR_END = true ∨ s.tx.carries queue = true) :
    hasFlag (fillPacket queue s).tx.pktHeaderFlag UDX_HEADER_DATA_OR_END = true := by
  induction queue generalizing s with
  | nil =>
    rcases h with h | h
    · exact h
    · cases h
  | cons b rest ih =>
    by_cases hflags : hasFlag s.tx.pktHeaderFlag UDX_HEADER_DATA_OR_END = true
    · exact fillPacket_keepsFlags _ hflags
    have hcarries := h.resolve_left hflags
    have hdata : hasFlag s.tx.pktHeaderFlag UDX_HEADER_DATA = false := by
      rw [hasFlag_dataOrEnd] at hflags
      simp only [Bool.or_eq_true, not_or, Bool.not_eq_true] at hflags
      exact hflags.1
    have hcap := hroom hdata
    obtain ⟨-, hwbufs, hflag⟩ := fillSlice_packet b s
    have hcarry : (0 < (s.tx.wbufs b).writesz) ∨ ((s.tx.wbufs b).packed = true ∧
        ((s.tx.wbufs b).isWriteEnd = true ∨ s.tx.carries rest = true)) := by
      simpa [Tx.carries] using hcarries
    unfold fillPacket
    rw [if_neg (by omega)]
    dsimp only
    by_cases hbytes : 0 < (s.tx.wbufs b).writesz
    · -- a byte of `b` is taken
      have hset : hasFlag (fillSlice b s).tx.pktHeaderFlag UDX_HEADER_DATA_OR_END = true := by
        have hlen : 0 < min s.tx.pktCapacity (s.tx.wbufs b).writesz := by omega
        rw [hflag, if_pos (by simp [hdata, hlen]), hasFlag_or, hasFlag_data, Bool.or_true]
      split
      · exact fillPacket_keepsFlags _ (shiftWrite_keepsFlags hset)
      · exact hset
    · -- `b` is passed over
      obtain ⟨hpacked, hnext⟩ := hcarry.resolve_left hbytes
      have hlen : min s.tx.pktCapacity (s.tx.wbufs b).writesz = 0 := by omega
      rw [hlen, packetize_zero] at hwbufs
      have hfull : ((fillSlice b s).tx.wbufs b).bytesAcked + ((fillSlice b s).tx.wbufs b).bytesInflight =
          ((fillSlice b s).tx.wbufs b).buf.length := by
        rw [hwbufs]
        simpa [WriteBuf.packed] using hpacked
      rw [if_pos hfull]
      refine ih (shiftWrite_room (fillSlice_room hroom)) ?_
      rcases hnext with hend | hrest
      · left
        show hasFlag ((fillSlice b s).tx.shiftWrite b rest).pktHeaderFlag _ = true
        unfold Tx.shiftWrite
        dsimp only
        rw [hwbufs, if_pos hend, hasFlag_or, hasFlag_end, Bool.or_true]
      · right
        rw [← hrest]
        exact Tx.carries_congr ((shiftWrite_wbufs ..).trans hwbufs) rest

/-! ### The steps -/

/-- A tail-loss probe is due that the write queue does not fill: its packet
would have neither DATA nor END. -/
def Core.emptyProbe (c : Core) : Bool :=
  (match c.tm.timer with
    | some (.tlp, due) => decide (due ≤ c.io.now)
    | _ => false) &&
  decide (c.tx.remoteAcked ≠ c.tx.seq) && (!c.cc.tlpInFlight && c.cc.tlpPermitted) &&
  decide (c.tx.writeQueue ≠ []) &&
  !(hasFlag c.tx.pktHeaderFlag UDX_HEADER_DATA_OR_END || c.tx.carries c.tx.writeQueue)

/-- The stream timer has fired for such a probe. -/
def Entry.emptyProbe : Entry → Bool
  | .event .timer pre => pre.emptyProbe
  | _ => false

/-- Every packet that was numbered carries DATA or END. -/
def Tx.Flagged (t : Tx) : Prop :=
  ∀ k < t.pkt, hasFlag (t.pkts k).header.type UDX_HEADER_DATA_OR_END = true

/-- Every packet that was numbered carries DATA or END, and the next one will. -/
structure Numbered (s : Stream) : Prop where
  sent : s.tx.Flagged
  room : s.tx.Room
  prepare : s.tm.pendingPacketPrepare = true → hasFlag s.tx.pktHeaderFlag UDX_HEADER_DATA = true
  mtu : s.mtu.Sound
  found : ∀ pre, .event .timer pre ∈ s.log → pre.tx.Room

theorem Mtu.Sound.maxPayload {s : Stream} (h : s.mtu.Sound) : 0 < udxMaxPayload s := by
  have hmtu : 1200 ≤ s.mtu.mtu := h.mtu
  unfold udxMaxPayload UDX_IPV4_HEADER_SIZE UDX_IPV6_HEADER_SIZE UDX_HEADER_SIZE
  split <;> omega

theorem hasFlag_dataOrEnd_of_data {x : UInt8} (h : hasFlag x UDX_HEADER_DATA = true) :
    hasFlag x UDX_HEADER_DATA_OR_END = true := by
  rw [hasFlag_dataOrEnd, h, Bool.true_or]

/-- The probe of an expiry that the write queue fills carries DATA or END. -/
theorem LossProbe.flags {pre : Core} {s : Stream} (h : LossProbe pre s) (hroom : pre.tx.Room)
    (hpre : pre.emptyProbe = false) : hasFlag s.tx.pktHeaderFlag UDX_HEADER_DATA_OR_END = true := by
  obtain ⟨due, htimer, hdue⟩ := h.due
  obtain ⟨u, hu, hfill⟩ := h.filled
  have hfull : hasFlag pre.tx.pktHeaderFlag UDX_HEADER_DATA_OR_END = true ∨
      pre.tx.carries pre.tx.writeQueue = true := by
    unfold Core.emptyProbe at hpre
    simpa [htimer, hdue, h.outstanding, h.permitted, h.queued, ← not_and_or, imp_iff_not_or, or_comm]
      using hpre
  rw [hfill]
  refine fillPacket_flags _ ?_ ?_
  · rw [hu]
    exact hroom
  · rw [hu]
    exact hfull

namespace Numbered

variable {s t : Stream}

/-- A step that keeps the flags of the packets keeps the rest. -/
theorem packing (h : Numbered s) (hload : t.tx.packing = s.tx.packing) (hmtu : t.mtu.Sound)
    (hprep : t.tm.pendingPacketPrepare = true → s.tm.pendingPacketPrepare = true)
    (hlog : ∀ pre, .event .timer pre ∈ t.log → pre.tx.Room) : Numbered t := by
  have hpkts : ∀ k, (t.tx.pkts k).header.type = (s.tx.pkts k).header.type := fun k =>
    (congrArg (fun x : Tx => (x.pkts k).header.type) hload :)
  have hpkt : t.tx.pkt = s.tx.pkt := (congrArg Tx.pkt hload :)
  have hflag : t.tx.pktHeaderFlag = s.tx.pktHeaderFlag := (congrArg Tx.pktHeaderFlag hload :)
  have hcap : t.tx.pktCapacity = s.tx.pktCapacity := (congrArg Tx.pktCapacity hload :)
  refine ⟨fun k hk => ?_, ?_, ?_, hmtu, hlog⟩
  · rw [hpkts]
    exact h.sent k (hpkt ▸ hk)
  · unfold Tx.Room
    rw [hflag, hcap]
    exact h.room
  · rw [hflag]
    exact h.prepare ∘ hprep

theorem fillSlice (h : Numbered s) (b : ℕ)
    (hlog : ∀ pre, .event .timer pre ∈ (fillSlice b s).log → pre.tx.Room) :
    Numbered (fillSlice b s) := by
  obtain ⟨hpkt, hpkts, htm, hmtu⟩ := fillSlice_beside b s
  refine ⟨fun k hk => ?_, fillSlice_room h.room, ?_, ?_, hlog⟩
  · rw [hpkt] at hk
    rw [hpkts k (Nat.ne_of_lt hk)]
    exact h.sent k hk
  · rw [htm]
    exact fun hp => fillSlice_keepsFlags (h.prepare hp)
  · rw [hmtu]
    exact h.mtu

/-- A new packet carries DATA or END. -/
theorem newPacket (h : Numbered s) (hnew : NewPacket s t)
    (hflags : hasFlag s.tx.pktHeaderFlag UDX_HEADER_DATA_OR_END = true)
    (hlog : ∀ pre, .event .timer pre ∈ t.log → pre.tx.Room) : Numbered t := by
  obtain ⟨p, hp, hpkt, hself, -, hother⟩ := hnew.packets
  obtain ⟨q, -, hload⟩ := hnew.load
  have hcap : t.tx.pktCapacity = udxMaxPayload s := (congrArg Tx.pktCapacity hload :)
  obtain ⟨r, tm, -, -, htm⟩ := hnew.tm
  refine ⟨fun k hk => ?_, fun _ => ?_, ?_, hnew.sound h.mtu, hlog⟩
  · by_cases hk' : k = s.tx.pkt
    · have htype : (t.tx.pkts k).header.type = p.header.type := by
        rw [hk']
        exact (congrArg (fun q => q.header.type) hself :)
      rw [htype, hp.type]
      exact hflags
    · have htype : (t.tx.pkts k).header.type = (s.tx.pkts k).header.type :=
        (congrArg (fun q => q.header.type) (hother k (by omega) hk') :)
      rw [htype]
      exact h.sent k (by omega)
  · rw [hcap]
    exact h.mtu.maxPayload
  · rw [htm]
    nofun

end Numbered

/-- A step in which no probe comes out empty. -/
theorem Loads.numbered {s t : Stream} (h : Loads s t) (hs : Numbered s)
    (hempty : ∀ e ∈ s.log, e.emptyProbe = false)
    (hlog : ∀ pre, .event .timer pre ∈ t.log → pre.tx.Room) : Numbered t := by
  cases h with
  | same h => exact hs.packing (Tx.packing_of_load h.load) (h.mtu hs.mtu) h.prepare hlog
  | close hprep hmtu hload => exact hs.packing hload (hmtu hs.mtu) hprep hlog
  | destroy pre htm hmtu hload =>
    exact hs.packing (Tx.packing_of_load hload) (hmtu ▸ hs.mtu) (by rw [htm]; exact id) hlog
  | finish => exact hs.packing rfl hs.mtu id hlog
  | capacity =>
    exact ⟨hs.sent, fun _ => hs.mtu.maxPayload, hs.prepare, hs.mtu, hlog⟩
  | slice b rest => exact hs.fillSlice b hlog
  | shift b rest =>
    exact ⟨hs.sent, shiftWrite_room hs.room, fun hp => shiftWrite_keepsFlags (hs.prepare hp), hs.mtu, hlog⟩
  | prepare _ hdata => exact ⟨hs.sent, hs.room, fun _ => hdata, hs.mtu, hlog⟩
  | newPacket h hc =>
    refine hs.newPacket h ?_ hlog
    rcases hc with (hfull | hend) | hprep | ⟨pre, hprobe⟩
    · by_contra hne
      rw [hasFlag_dataOrEnd] at hne
      simp only [Bool.or_eq_true, not_or, Bool.not_eq_true] at hne
      exact Nat.ne_of_gt (hs.room hne.1) hfull
    · rw [hasFlag_dataOrEnd, hend, Bool.or_true]
    · exact hasFlag_dataOrEnd_of_data (hs.prepare hprep)
    · exact hprobe.flags (hs.found pre hprobe.logged) (hempty _ hprobe.logged)
  | queueWrite bufs onAck isEnd hbufs h hacking hload =>
    exact hs.packing ((Tx.packing_of_load hload).trans (queueWrite_packing ..)) (h.mtu hs.mtu) h.prepare hlog
  | take c k hk h hload =>
    exact hs.packing ((Tx.packing_of_load hload).trans rfl) (h.mtu hs.mtu) h.prepare hlog
  | takeDead c k x rest pre hk hb h hdead hload =>
    exact hs.packing ((Tx.packing_of_load hload).trans rfl) (h.mtu hs.mtu) h.prepare hlog
  | count c rest hc h hload =>
    exact hs.packing ((Tx.packing_of_load hload).trans rfl) (h.mtu hs.mtu) h.prepare hlog

/-- In every run in which no tail-loss probe finds a write queue that carries
nothing, every packet that got a number carries DATA or END. -/
theorem Reach.flagged {env : Env} {cfg : Config} {s : Stream} (h : Reach env cfg s)
    (hempty : ∀ e ∈ s.log, e.emptyProbe = false) : s.tx.Flagged := by
  have hinit : Numbered (Udx.init env cfg) := by
    constructor
    · simp [Tx.Flagged]
    · simp [Tx.Room, UDX_MTU_BASE, UDX_IPV6_HEADER_SIZE, UDX_HEADER_SIZE]
    · simp
    · exact ⟨Nat.le_refl _, Nat.le_refl _, .inl (show 1200 ≤ 1500 by omega)⟩
    · simp
  have hall := h.atoms (I := fun s => (∀ e ∈ s.log, e.emptyProbe = false) → Numbered s)
    (fun _ => hinit) fun ha ih hempty' => by
      have hbefore := fun e he => hempty' e (ha.mem_log env he)
      have hs := ih hbefore
      refine (ha.loads env).numbered hs hbefore fun pre hm => ?_
      rcases ha.old_or_tells env hm with hold | hfound | rfl
      · exact hs.found pre hold
      · cases hfound
      · exact hs.room
  exact (hall hempty).sent

/-- An ack of the peer. -/
def ackDatagramOf (ack rwnd : SeqNo) : List UInt8 :=
  Header.encode { type := 0, dataOffset := 0, remoteId := 1, rwnd := rwnd, seq := 0, ack := ack }

def numberedConfig : Config := { localId := 1, seq := 0, ack := 0, now := 0 }

/-- A byte is acknowledged with a window of one packet, another one fills it,
and the tail-loss probe takes what is written then. -/
def probeEvents (buf : List UInt8) : List Event :=
  [.call (.connect ⟨0, .inet⟩ 2 ⟨.inet, 1, [1, 2, 3, 4]⟩), .call (.write [[7]] false), .prepare, .tick 10,
    .recv (ackDatagramOf 1 1) true, .call (.write [[8]] false), .prepare, .call (.write [buf] false),
    .tick 1000, .timer]

theorem Reach.flagged_probe :
    (Udx.runEvents .free (probeEvents [9]) (Udx.init .free numberedConfig)).tx.Flagged :=
  (Reach.runEvents .init (probeEvents [9])).flagged (by decide +kernel)

/-- A probe made of an empty buffer has neither flag. -/
theorem Reach.flagged_empty : ∃ s, Reach .free numberedConfig s ∧ ¬ s.tx.Flagged := by
  refine ⟨_, .runEvents .init (probeEvents []), fun h => ?_⟩
  have hlast := h 2 (by decide +kernel)
  revert hlast
  decide +kernel

end Udx
