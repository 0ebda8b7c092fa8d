/-
# How many buffers a packet combines

`send_new_packet` gives the packet in construction a slice of one write buffer
after the other while it has capacity. A slice of an empty buffer takes a
place in the arrays of the packet but no capacity, so the capacity does not
bound the slices: a packet is crowded if the buffers that use up its places
leave capacity and another buffer behind. In every run in which no crowded
packet is filled the arrays are large enough.

Key definitions: `Tx.Crowded`, `Packet.Combined`, `SpacedPath`.
Key theorems: `fillPacket_bufs_le_iff`, `fillPacket_spaced`, `Loads.sized`,
`SpacedPath.combined`.
-/
import Udx.Numbered
import Mathlib.Algebra.BigOperators.Group.List.Basic

namespace Udx

open Serial

/-- One write per byte. -/
def UDX_MAX_COMBINED_WRITES : ℕ := UDX_MTU_MAX - UDX_IPV4_HEADER_SIZE

/-- The slices that the packet in construction has places for. -/
def Tx.room (t : Tx) : ℕ := UDX_MAX_COMBINED_WRITES - (t.pkts t.pkt).bufs.length

/-- `queue` has more slices for the packet in construction than that has
places: the buffers that take the places leave capacity and a buffer behind. -/
def Tx.Crowds (t : Tx) (queue : List ℕ) : Prop :=
  t.room < queue.length ∧ ((queue.take t.room).map fun b => (t.wbufs b).writesz).sum < t.pktCapacity

instance (t : Tx) (queue : List ℕ) : Decidable (t.Crowds queue) :=
  inferInstanceAs (Decidable (_ ∧ _))

/-- The write queue has more slices for the packet in construction than that
has places. -/
def Tx.Crowded (t : Tx) : Prop := t.Crowds t.writeQueue

instance (t : Tx) : Decidable t.Crowded := inferInstanceAs (Decidable (t.Crowds t.writeQueue))

/-- The slices of a packet fit its arrays: those of the packet, which never
lose entries to a doubling that wraps, and that of `_send_packet`. -/
structure Packet.Combined (p : Packet) : Prop where
  nwbufs : p.bufs.length ≤ UDX_MAX_COMBINED_WRITES
  capacity : p.bufs.length ≤ p.nwbufsCapacity
  doubling : p.nwbufsCapacity * 2 < 2 ^ 16
  bufs : ∀ k, (p.uvBufs k).length ≤ UDX_MAX_COMBINED_WRITES + 2

/-! ### Filling a packet -/

/-- Where the slices of a packet stand in its arrays. -/
def Packet.places (p : Packet) : List Chunk × ℕ := (p.bufs, p.nwbufsCapacity)

/-- A slice takes the next place, and the arrays double where they are full. -/
theorem fillSlice_places (b : ℕ) (s : Stream) : ∃ c,
    ((fillSlice b s).tx.pkts s.tx.pkt).places = ((s.tx.pkts s.tx.pkt).bufs ++ [c],
      if (s.tx.pkts s.tx.pkt).bufs.length = (s.tx.pkts s.tx.pkt).nwbufsCapacity then
        (s.tx.pkts s.tx.pkt).nwbufsCapacity * 2 % 2 ^ 16 else (s.tx.pkts s.tx.pkt).nwbufsCapacity) := by
  have hpack : ∀ len, ((s.tx.packetize b len).pkts s.tx.pkt).places = ((s.tx.pkts s.tx.pkt).bufs ++
      [⟨b, (s.tx.wbufs b).bytesAcked + (s.tx.wbufs b).bytesInflight, len⟩],
      if (s.tx.pkts s.tx.pkt).bufs.length = (s.tx.pkts s.tx.pkt).nwbufsCapacity then
        (s.tx.pkts s.tx.pkt).nwbufsCapacity * 2 % 2 ^ 16 else (s.tx.pkts s.tx.pkt).nwbufsCapacity) :=
    fun len => by simp [Tx.packetize, Tx.setPkt, Tx.setWbuf, Packet.places]
  refine ⟨⟨b, (s.tx.wbufs b).bytesAcked + (s.tx.wbufs b).bytesInflight,
    min s.tx.pktCapacity (s.tx.wbufs b).writesz⟩, ?_⟩
  unfold fillSlice
  dsimp only
  split
  · have hcore := startData_core
      (s.withTx fun tx => tx.packetize b (min s.tx.pktCapacity (s.tx.wbufs b).writesz))
    refine (congrArg (fun c => (c.tx.pkts s.tx.pkt).places) hcore :).trans ?_
    exact (congrArg Packet.places (Tx.setPkt_self ..)).trans (hpack _)
  · exact hpack _

theorem fillSlice_bufs (b : ℕ) (s : Stream) : ((fillSlice b s).tx.pkts s.tx.pkt).bufs.length =
    (s.tx.pkts s.tx.pkt).bufs.length + 1 := by
  obtain ⟨c, hc⟩ := fillSlice_places b s
  have hbufs := congrArg (fun x => x.1.length) hc
  simpa [Packet.places] using hbufs

/-- The packet in construction stays the same one, and loses no slice. -/
theorem fillPacket_bufs (queue : List ℕ) (s : Stream) : (fillPacket queue s).tx.pkt = s.tx.pkt ∧
    (s.tx.pkts s.tx.pkt).bufs.length ≤ ((fillPacket queue s).tx.pkts s.tx.pkt).bufs.length := by
  induction queue generalizing s with
  | nil => exact ⟨rfl, Nat.le_refl _⟩
  | cons b rest ih =>
    have hslice := fillSlice_bufs b s
    have hpkt := (fillSlice_beside b s).1
    obtain ⟨hrest, hle⟩ := ih ((fillSlice b s).withTx fun tx => tx.shiftWrite b rest)
    have hrest' : (fillPacket rest ((fillSlice b s).withTx fun tx => tx.shiftWrite b rest)).tx.pkt =
        s.tx.pkt := hrest.trans hpkt
    have hle' : ((fillSlice b s).tx.pkts (fillSlice b s).tx.pkt).bufs.length ≤
        ((fillPacket rest ((fillSlice b s).withTx fun tx => tx.shiftWrite b rest)).tx.pkts
          (fillSlice b s).tx.pkt).bufs.length := hle
    rw [hpkt] at hle'
    unfold fillPacket
    dsimp only
    split_ifs
    · exact ⟨rfl, Nat.le_refl _⟩
    · exact ⟨hrest', by omega⟩
    · exact ⟨hpkt, by omega⟩

/-- What is packetized of the buffers waiting is no more than they have. -/
def Tx.Waiting (t : Tx) (queue : List ℕ) : Prop :=
  queue.Nodup ∧ ∀ b ∈ queue, (t.wbufs b).bytesAcked + (t.wbufs b).bytesInflight ≤ (t.wbufs b).buf.length

/-- What a slice leaves of a queue that starts with its buffer. -/
structure Sliced (b : ℕ) (rest : List ℕ) (s t : Stream) : Prop where
  pkt : t.tx.pkt = s.tx.pkt
  bufs : (t.tx.pkts s.tx.pkt).bufs.length = (s.tx.pkts s.tx.pkt).bufs.length + 1
  capacity : t.tx.pktCapacity = s.tx.pktCapacity - (s.tx.wbufs b).writesz
  waiting : t.tx.Waiting rest
  writesz : ∀ i ∈ rest, (t.tx.wbufs i).writesz = (s.tx.wbufs i).writesz
  full : (t.tx.wbufs b).bytesAcked + (t.tx.wbufs b).bytesInflight = (t.tx.wbufs b).buf.length ↔
    (s.tx.wbufs b).writesz ≤ s.tx.pktCapacity

theorem fillSlice_sliced {b : ℕ} {rest : List ℕ} {s : Stream} (h : s.tx.Waiting (b :: rest)) :
    Sliced b rest s (fillSlice b s) := by
  obtain ⟨hcap, hwbufs, -⟩ := fillSlice_packet b s
  have hfresh := List.nodup_cons.mp h.1
  have hfit := h.2 b List.mem_cons_self
  have hother : ∀ i ∈ rest, (fillSlice b s).tx.wbufs i = s.tx.wbufs i := by
    intro i hi
    rw [hwbufs]
    exact Function.update_of_ne (ne_of_mem_of_not_mem hi hfresh.1) ..
  have hself : (fillSlice b s).tx.wbufs b = { s.tx.wbufs b with
      bytesInflight := (s.tx.wbufs b).bytesInflight + min s.tx.pktCapacity (s.tx.wbufs b).writesz } := by
    rw [hwbufs]
    exact Function.update_self ..
  refine ⟨(fillSlice_beside b s).1, fillSlice_bufs b s, by omega, ⟨hfresh.2, fun i hi => ?_⟩,
    fun i hi => by rw [hother i hi], ?_⟩
  · rw [hother i hi]
    exact h.2 i (List.mem_cons_of_mem _ hi)
  · rw [hself]
    dsimp only
    unfold WriteBuf.writesz at *
    omega

/-- A slice leaves the packet as crowded as it was by the rest of the queue. -/
theorem Sliced.crowds_iff {b : ℕ} {rest : List ℕ} {s t : Stream} (h : Sliced b rest s t)
    (hroom : 0 < s.tx.room) (hfull : (s.tx.wbufs b).writesz ≤ s.tx.pktCapacity) :
    t.tx.Crowds rest ↔ s.tx.Crowds (b :: rest) := by
  have hsucc : s.tx.room = t.tx.room + 1 := by
    have hbufs := h.bufs
    unfold Tx.room at hroom ⊢
    rw [h.pkt]
    omega
  have hsum : (rest.take t.tx.room).map (fun i => (t.tx.wbufs i).writesz) =
      (rest.take t.tx.room).map fun i => (s.tx.wbufs i).writesz :=
    List.map_congr_left fun i hi => h.writesz i (List.mem_of_mem_take hi)
  unfold Tx.Crowds
  rw [hsucc, hsum, h.capacity, List.take_succ_cons, List.map_cons, List.sum_cons, List.length_cons]
  omega

/-- A packet without places left is crowded by a buffer. -/
theorem Tx.crowds_of_room {t : Tx} {b : ℕ} {rest : List ℕ} (hroom : t.room = 0) (hcap : t.pktCapacity ≠ 0) :
    t.Crowds (b :: rest) := by
  unfold Tx.Crowds
  rw [hroom]
  exact ⟨Nat.succ_pos _, Nat.pos_of_ne_zero hcap⟩

/-- A buffer that takes all the capacity crowds no packet that has a place. -/
theorem Tx.not_crowds_of_writesz {t : Tx} {b : ℕ} {rest : List ℕ} (hroom : 0 < t.room)
    (hfull : t.pktCapacity < (t.wbufs b).writesz) : ¬ t.Crowds (b :: rest) := by
  intro hc
  have hsum := hc.2
  rw [← Nat.succ_pred_eq_of_pos hroom, List.take_succ_cons, List.map_cons, List.sum_cons] at hsum
  omega

/-- Where every slice has taken a byte of capacity, only an empty buffer can
crowd the packet. -/
theorem Tx.not_crowded_of_bytes {t : Tx}
    (hbufs : (t.pkts t.pkt).bufs.length + t.pktCapacity ≤ UDX_MAX_COMBINED_WRITES)
    (hqueue : ∀ b ∈ t.writeQueue, 0 < (t.wbufs b).writesz) : ¬ t.Crowded := by
  intro hc
  obtain ⟨hlen, hsum⟩ : t.Crowds t.writeQueue := hc
  have hbytes : (t.writeQueue.take t.room).length ≤
      ((t.writeQueue.take t.room).map fun b => (t.wbufs b).writesz).sum := by
    have hle := List.length_le_sum_of_one_le ((t.writeQueue.take t.room).map fun b => (t.wbufs b).writesz)
    rw [List.length_map] at hle
    apply hle
    intro n hn
    obtain ⟨b, hb, rfl⟩ := List.mem_map.mp hn
    exact hqueue b (List.mem_of_mem_take hb)
  have hroom : t.room = UDX_MAX_COMBINED_WRITES - (t.pkts t.pkt).bufs.length := rfl
  rw [List.length_take] at hbytes
  omega

/-- The loop of `send_new_packet` gives a packet no more slices than its arrays
are made for if and only if it was not crowded. -/
theorem fillPacket_bufs_le_iff {queue : List ℕ} {s : Stream} (h : s.tx.Waiting queue)
    (hbufs : (s.tx.pkts s.tx.pkt).bufs.length ≤ UDX_MAX_COMBINED_WRITES) :
    ((fillPacket queue s).tx.pkts s.tx.pkt).bufs.length ≤ UDX_MAX_COMBINED_WRITES ↔
      ¬ s.tx.Crowds queue := by
  induction queue generalizing s with
  | nil => exact ⟨fun _ hc => absurd hc.1 (Nat.not_lt_zero _), fun _ => hbufs⟩
  | cons b rest ih =>
    have hslice := fillSlice_sliced h
    have hlen := hslice.bufs
    have hroom : s.tx.room = UDX_MAX_COMBINED_WRITES - (s.tx.pkts s.tx.pkt).bufs.length := rfl
    have hkeep : ((fillSlice b s).tx.pkts s.tx.pkt).bufs.length ≤
        ((fillPacket rest ((fillSlice b s).withTx fun tx => tx.shiftWrite b rest)).tx.pkts
          s.tx.pkt).bufs.length := by
      have hle := (fillPacket_bufs rest ((fillSlice b s).withTx fun tx => tx.shiftWrite b rest)).2
      rw [show ((fillSlice b s).withTx fun tx => tx.shiftWrite b rest).tx.pkt = s.tx.pkt from
        hslice.pkt] at hle
      exact hle
    unfold fillPacket
    dsimp only
    split_ifs with hcap hfull
    · refine ⟨fun _ hc => ?_, fun _ => hbufs⟩
      have hsum := hc.2
      omega
    · rcases Nat.eq_zero_or_pos s.tx.room with hzero | hpos
      · exact ⟨fun hle => by omega, fun hc => absurd (Tx.crowds_of_room hzero hcap) hc⟩
      · -- the rest goes into the places and the capacity left
        have hnext := ih (s := (fillSlice b s).withTx fun tx => tx.shiftWrite b rest) hslice.waiting (by
          show ((fillSlice b s).tx.pkts (fillSlice b s).tx.pkt).bufs.length ≤ _
          rw [hslice.pkt]
          omega)
        rw [show ((fillSlice b s).withTx fun tx => tx.shiftWrite b rest).tx.pkt = s.tx.pkt from
          hslice.pkt] at hnext
        rw [hnext]
        exact not_congr (hslice.crowds_iff hpos (hslice.full.mp hfull))
    · rw [hslice.full] at hfull
      rcases Nat.eq_zero_or_pos s.tx.room with hzero | hpos
      · exact ⟨fun hle => by omega, fun hc => absurd (Tx.crowds_of_room hzero hcap) hc⟩
      · exact ⟨fun _ => Tx.not_crowds_of_writesz hpos (by omega), fun _ => by omega⟩

/-! ### The steps -/

/-- The slices of a packet fit its arrays, which are no longer than their
doubling makes them. -/
structure Packet.Sized (p : Packet) : Prop where
  nwbufs : p.bufs.length ≤ UDX_MAX_COMBINED_WRITES
  capacity : p.bufs.length ≤ p.nwbufsCapacity
  pos : 0 < p.nwbufsCapacity
  doubled : p.nwbufsCapacity ≤ 2 * p.bufs.length + 5

namespace Packet.Sized

variable {p q : Packet}

theorem fits (h : p.Sized) : p.Combined := by
  obtain ⟨hmax, hcap, -, htwice⟩ := h
  refine ⟨hmax, hcap, ?_, fun k => ?_⟩
  · unfold UDX_MAX_COMBINED_WRITES UDX_MTU_MAX UDX_IPV4_HEADER_SIZE UDX_HEADER_SIZE at hmax
    omega
  · unfold Packet.uvBufs
    split <;> simp only [List.cons_append, List.nil_append, List.length_cons, List.length_map] <;> omega

theorem of_fixed (h : p.Sized) (hq : q.fixed = p.fixed) : q.Sized := by
  have hbufs : q.bufs = p.bufs := (congrArg Packet.bufs hq :)
  have hcap : q.nwbufsCapacity = p.nwbufsCapacity := (congrArg Packet.nwbufsCapacity hq :)
  exact ⟨hbufs ▸ h.nwbufs, by rw [hbufs, hcap]; exact h.capacity, hcap ▸ h.pos,
    by rw [hbufs, hcap]; exact h.doubled⟩

/-- Another slice, where there is a place for it. -/
theorem slice (h : p.Sized) (hroom : p.bufs.length < UDX_MAX_COMBINED_WRITES) {c : Chunk}
    (hq : q.places = (p.bufs ++ [c], if p.bufs.length = p.nwbufsCapacity then
      p.nwbufsCapacity * 2 % 2 ^ 16 else p.nwbufsCapacity)) : q.Sized := by
  have hbufs : q.bufs.length = p.bufs.length + 1 := by
    rw [show q.bufs = p.bufs ++ [c] from congrArg Prod.fst hq, List.length_append, List.length_singleton]
  have hcap : q.nwbufsCapacity = if p.bufs.length = p.nwbufsCapacity then
      p.nwbufsCapacity * 2 % 2 ^ 16 else p.nwbufsCapacity := congrArg Prod.snd hq
  obtain ⟨hmax, hle, hpos, htwice⟩ := h
  have hsmall : p.nwbufsCapacity * 2 % 2 ^ 16 = p.nwbufsCapacity * 2 := by
    unfold UDX_MAX_COMBINED_WRITES UDX_MTU_MAX UDX_IPV4_HEADER_SIZE UDX_HEADER_SIZE at hmax
    apply Nat.mod_eq_of_lt
    omega
  rw [hsmall] at hcap
  split at hcap <;> exact ⟨by omega, by omega, by omega, by omega⟩

end Packet.Sized

/-- Every packet, and the one in construction, fits its arrays. -/
def Tx.Sized (t : Tx) : Prop := ∀ k ≤ t.pkt, (t.pkts k).Sized

theorem Tx.Sized.packing {t u : Tx} (h : t.Sized) (hu : u.packing = t.packing) : u.Sized := by
  intro k hk
  have hpkt : u.pkt = t.pkt := (congrArg Tx.pkt hu :)
  exact (h k (hpkt ▸ hk)).of_fixed (congrArg (fun x : Tx => x.pkts k) hu :)

/-- A step that fills no crowded packet. -/
theorem Loads.sized {s t : Stream} (h : Loads s t) (hs : s.tx.Sized)
    (hfill : (∃ b, t = fillSlice b s) → ¬ s.tx.Crowded) : t.tx.Sized := by
  cases h with
  | same h => exact hs.packing (Tx.packing_of_load h.load)
  | close hprep hmtu hload => exact hs.packing hload
  | destroy pre htm hmtu hload => exact hs.packing (Tx.packing_of_load hload)
  | finish | capacity | shift | prepare => exact hs
  | slice b rest _ hq hcap =>
    have hroom : s.tx.room ≠ 0 := fun hzero => hfill ⟨b, rfl⟩ (by
      unfold Tx.Crowded
      rw [hq]
      exact Tx.crowds_of_room hzero hcap)
    obtain ⟨hpkt, hpkts, -, -⟩ := fillSlice_beside b s
    obtain ⟨c, hplaces⟩ := fillSlice_places b s
    intro k hk
    rw [hpkt] at hk
    by_cases hk' : k = s.tx.pkt
    · unfold Tx.room at hroom
      rw [hk']
      exact (hs s.tx.pkt (Nat.le_refl _)).slice (by omega) hplaces
    · rw [hpkts k hk']
      exact hs k hk
  | newPacket h hc =>
    obtain ⟨p, hp, hpkt, hself, hnext, hother⟩ := h.packets
    intro k hk
    by_cases hnew : k = s.tx.pkt + 1
    · have hempty : ({ streamOffset := s.tx.bytesPacketized } : Packet).Sized :=
        ⟨Nat.zero_le _, Nat.zero_le _, Nat.succ_pos _, Nat.le_refl _⟩
      exact hempty.of_fixed (hnew ▸ hnext)
    · by_cases hk' : k = s.tx.pkt
      · have hnumbered : p.Sized := by
          obtain ⟨hmax, hle, hpos, htwice⟩ := hs s.tx.pkt (Nat.le_refl _)
          rw [← hp.bufs] at hmax hle htwice
          rw [← hp.nwbufsCapacity] at hle hpos htwice
          exact ⟨hmax, hle, hpos, htwice⟩
        exact hnumbered.of_fixed (hk' ▸ hself)
      · exact (hs k (by omega)).of_fixed (hother k hnew hk')
  | queueWrite bufs onAck isEnd hbufs h hacking hload =>
    exact hs.packing ((Tx.packing_of_load hload).trans (queueWrite_packing ..))
  | take c k hk h hload => exact hs.packing ((Tx.packing_of_load hload).trans rfl)
  | takeDead c k x rest pre hk hb h hdead hload => exact hs.packing ((Tx.packing_of_load hload).trans rfl)
  | count c rest hc h hload => exact hs.packing ((Tx.packing_of_load hload).trans rfl)

/-! ### Runs -/

/-- A step that fills no crowded packet. -/
def Spaced (env : Env) (s t : Stream) : Prop :=
  Atom env s t ∧ ((∃ b, t = fillSlice b s) → ¬ s.tx.Crowded)

/-- Runs that fill no crowded packet. -/
abbrev SpacedPath (env : Env) : Stream → Stream → Prop := Relation.ReflTransGen (Spaced env)

section

variable {env : Env}

/-- Where the packet is not crowded at first, no slice of the loop goes into a
crowded packet. -/
theorem fillPacket_spaced {queue : List ℕ} {s : Stream} (hq : s.tx.writeQueue = queue)
    (h : s.tx.Waiting queue) (hc : ¬ s.tx.Crowded) : SpacedPath env s (fillPacket queue s) := by
  induction queue generalizing s with
  | nil => exact .refl
  | cons b rest ih =>
    have hslice := fillSlice_sliced h
    have hq' : (fillSlice b s).tx.writeQueue = b :: rest := (fillSlice_writeQueue b s).trans hq
    have hcrowds : s.tx.Crowded ↔ s.tx.Crowds (b :: rest) := by
      unfold Tx.Crowded
      rw [hq]
    unfold fillPacket
    dsimp only
    split_ifs with hcap hfull
    · exact .refl
    · have hroom : 0 < s.tx.room := Nat.pos_of_ne_zero fun hzero =>
        hc (hcrowds.mpr (Tx.crowds_of_room hzero hcap))
      have hnext : Spaced env (fillSlice b s) ((fillSlice b s).withTx fun tx => tx.shiftWrite b rest) := by
        refine ⟨.send (.shift b rest _ hq' hfull), ?_⟩
        -- no slice leaves the packet as it is
        rintro ⟨i, hi⟩
        have hlen := fillSlice_bufs i (fillSlice b s)
        rw [← hi] at hlen
        exact absurd hlen (Nat.ne_of_lt (Nat.lt_succ_self _))
      refine .head ⟨.send (.slice b rest s hq hcap), fun _ => hc⟩ (.head hnext (ih rfl hslice.waiting ?_))
      have hiff := hslice.crowds_iff hroom (hslice.full.mp hfull)
      exact fun hcrowd => hc (hcrowds.mpr (hiff.mp hcrowd))
    · exact .single ⟨.send (.slice b rest s hq hcap), fun _ => hc⟩

/-- A run fills no crowded packet, or is one that fills none up to where it
fills its first. -/
theorem Reach.spaced {cfg : Config} {s : Stream} (h : Reach env cfg s) :
    SpacedPath env (Udx.init env cfg) s ∨ ∃ t b, SpacedPath env (Udx.init env cfg) t ∧ t.tx.Crowded ∧
      AtomPath env (fillSlice b t) s := by
  refine h.atoms (I := fun s => SpacedPath env (Udx.init env cfg) s ∨ ∃ t b,
    SpacedPath env (Udx.init env cfg) t ∧ t.tx.Crowded ∧ AtomPath env (fillSlice b t) s) (.inl .refl) ?_
  intro s t ha hs
  rcases hs with hs | ⟨u, b, hu, hc, hpath⟩
  · by_cases hfill : ∃ b, t = fillSlice b s
    · by_cases hc : s.tx.Crowded
      · obtain ⟨b, rfl⟩ := hfill
        exact .inr ⟨s, b, hs, hc, .refl _⟩
      · exact .inl (hs.tail ⟨ha, fun _ => hc⟩)
    · exact .inl (hs.tail ⟨ha, fun h => absurd h hfill⟩)
  · exact .inr ⟨u, b, hu, hc, hpath.tail ha⟩

/-- In every run that fills no crowded packet, the slices of every packet fit
its arrays. -/
theorem SpacedPath.combined {cfg : Config} {s : Stream} (h : SpacedPath env (Udx.init env cfg) s) {k : ℕ}
    (hk : k ≤ s.tx.pkt) : (s.tx.pkts k).Combined := by
  have hinit : (Udx.init env cfg).tx.Sized := by
    rw [init_tx]
    exact fun _ _ => ⟨Nat.zero_le _, Nat.zero_le _, Nat.succ_pos _, Nat.le_refl _⟩
  have hsized : s.tx.Sized := by
    clear hk
    induction h with
    | refl => exact hinit
    | tail _ hstep ih => exact (hstep.1.loads env).sized ih hstep.2
  exact (hsized k hk).fits

end

/-- A stream that was connected and has a write of three buffers to send, of
which the second is empty. -/
def gatherStream : Stream :=
  let s := init .free numberedConfig
  let s := (connectBind .free ⟨0, .inet⟩ 2 ⟨.inet, 1, [1, 2, 3, 4]⟩
    (s.note (.call (.connect ⟨0, .inet⟩ 2 ⟨.inet, 1, [1, 2, 3, 4]⟩) s.toCore))).1
  queueWrite .free [[7, 8], [], [9]] false false (s.note (.call (.write [[7, 8], [], [9]] false) s.toCore))

theorem gatherStream_spaced : SpacedPath .free (init .free numberedConfig) gatherStream := by
  have hbind : SpacedPath .free (init .free numberedConfig) _ :=
    .single ⟨.bind ⟨0, .inet⟩ 2 ⟨.inet, 1, [1, 2, 3, 4]⟩ _ (by decide), fun _ => by decide +kernel⟩
  have hcall := hbind.tail ⟨.found (.call (.write [[7, 8], [], [9]] false) _) _ rfl rfl, fun _ => by decide +kernel⟩
  refine hcall.tail ⟨.queueWrite [[7, 8], [], [9]] false false _ (by decide +kernel) (by decide)
    (by decide +kernel) ?_, fun _ => by decide +kernel⟩
  exact ⟨_, _, List.mem_cons_self, rfl, rfl, rfl, .inl ⟨rfl, rfl⟩⟩

theorem SpacedPath.combined_gather :
    SpacedPath .free (init .free numberedConfig) (fillPacket [0, 1, 2] gatherStream) ∧
      ((fillPacket [0, 1, 2] gatherStream).tx.pkts 0).bufs.map Chunk.len = [2, 0, 1] ∧
      ((fillPacket [0, 1, 2] gatherStream).tx.pkts 0).Combined := by
  have hfill : SpacedPath .free gatherStream (fillPacket [0, 1, 2] gatherStream) :=
    fillPacket_spaced (by decide +kernel) ⟨by decide, by decide +kernel⟩ (by decide +kernel)
  have hpath := gatherStream_spaced.trans hfill
  exact ⟨hpath, by decide +kernel, SpacedPath.combined hpath (Nat.zero_le _)⟩

/-! ### Empty buffers -/

/-- A buffer of no bytes that is not the end of the stream. -/
structure WriteBuf.Empty (b : WriteBuf) : Prop where
  buf : b.buf = []
  bytesAcked : b.bytesAcked = 0
  bytesInflight : b.bytesInflight = 0
  isWriteEnd : b.isWriteEnd = false

/-- Empty buffers all go into the packet, and leave its capacity and flags. -/
theorem fillPacket_empty {queue : List ℕ} {s : Stream} (hcap : s.tx.pktCapacity ≠ 0)
    (h : ∀ b ∈ queue, (s.tx.wbufs b).Empty) :
    (fillPacket queue s).tx.pktCapacity = s.tx.pktCapacity ∧
      (fillPacket queue s).tx.pktHeaderFlag = s.tx.pktHeaderFlag ∧
      ((fillPacket queue s).tx.pkts s.tx.pkt).bufs.length =
        (s.tx.pkts s.tx.pkt).bufs.length + queue.length := by
  induction queue generalizing s with
  | nil => exact ⟨rfl, rfl, rfl⟩
  | cons b rest ih =>
    obtain ⟨hbuf, hacked, hinflight, hend⟩ := h b List.mem_cons_self
    obtain ⟨hcap', hwbufs, hflag⟩ := fillSlice_packet b s
    have hlen : min s.tx.pktCapacity (s.tx.wbufs b).writesz = 0 := by
      simp [WriteBuf.writesz, hbuf]
    rw [hlen, Nat.sub_zero] at hcap'
    rw [hlen, packetize_zero] at hwbufs
    rw [hlen] at hflag
    have hnext := ih (s := (fillSlice b s).withTx fun tx => tx.shiftWrite b rest) (hcap'.trans_ne hcap)
      fun i hi => hwbufs ▸ h i (List.mem_cons_of_mem _ hi)
    have hshift : ((fillSlice b s).tx.shiftWrite b rest).pktHeaderFlag = s.tx.pktHeaderFlag := by
      unfold Tx.shiftWrite
      simpa [hwbufs, hend] using hflag
    rw [show ((fillSlice b s).withTx fun tx => tx.shiftWrite b rest).tx.pkt = s.tx.pkt from
      (fillSlice_beside b s).1] at hnext
    unfold fillPacket
    rw [if_neg hcap]
    dsimp only
    rw [if_pos (by simp [hwbufs, hbuf, hacked, hinflight])]
    refine ⟨hnext.1.trans hcap', hnext.2.1.trans hshift, hnext.2.2.trans ?_⟩
    have hbufs := fillSlice_bufs b s
    show ((fillSlice b s).tx.pkts s.tx.pkt).bufs.length + rest.length = _
    rw [List.length_cons]
    omega

/-- A write of empty buffers queues empty buffers. -/
theorem queueBufs_empty (w n : ℕ) {t : Tx} (h : ∀ b ∈ t.writeQueue, b < t.nwbufs ∧ (t.wbufs b).Empty) :
    (queueBufs w false (List.replicate n []) t).writeQueue.length = t.writeQueue.length + n ∧
      ∀ b ∈ (queueBufs w false (List.replicate n []) t).writeQueue,
        ((queueBufs w false (List.replicate n []) t).wbufs b).Empty := by
  induction n generalizing t with
  | zero => exact ⟨rfl, fun b hb => (h b hb).2⟩
  | succ n ih =>
    rw [List.replicate_succ]
    unfold queueBufs
    dsimp only
    refine (ih ?_).imp (fun hlen => hlen.trans ?_) id
    · intro b hb
      rcases List.mem_append.mp hb with hb | hb
      · obtain ⟨hlt, hempty⟩ := h b hb
        refine ⟨Nat.lt_succ_of_lt hlt, ?_⟩
        show WriteBuf.Empty (Function.update t.wbufs t.nwbufs _ b)
        rw [Function.update_of_ne (Nat.ne_of_lt hlt)]
        exact hempty
      · obtain rfl := List.mem_singleton.mp hb
        refine ⟨Nat.lt_succ_self _, ?_⟩
        show WriteBuf.Empty (Function.update t.wbufs t.nwbufs _ t.nwbufs)
        rw [Function.update_self]
        exact ⟨rfl, rfl, rfl, rfl⟩
    · show (t.writeQueue ++ [t.nwbufs]).length + n = _
      rw [List.length_append, List.length_singleton]
      omega

theorem queueWrite_empty (n : ℕ) (onAck : Bool) {t : Tx} (hq : t.writeQueue = []) :
    (t.queueWrite (List.replicate n []) onAck false).writeQueue.length = n ∧
      ∀ b ∈ (t.queueWrite (List.replicate n []) onAck false).writeQueue,
        ((t.queueWrite (List.replicate n []) onAck false).wbufs b).Empty := by
  have hnone : ∀ b ∈ t.writeQueue, b < t.nwbufs ∧ (t.wbufs b).Empty := by
    rw [hq]
    nofun
  obtain ⟨hlen, hempty⟩ := queueBufs_empty t.nwrites n (t := { t.setWrite t.nwrites (fun _ =>
    { isWriteEnd := false, onAck := onAck }) with nwrites := t.nwrites + 1 }) hnone
  refine ⟨hlen.trans ?_, hempty⟩
  show t.writeQueue.length + n = n
  rw [hq, List.length_nil, Nat.zero_add]

/-- A stream that may send has all of a queue of empty buffers in its packet in
construction. -/
theorem sendPackets_empty (env : Env) {s : Stream} (hr : s.tx.retransmitQueue = []) (hq : s.tx.writeQueue ≠ [])
    (hcap : s.tx.pktCapacity ≠ 0) (hflag : s.tx.pktHeaderFlag = 0)
    (hmay : (streamMaySend false (s.check .sendDead (s.st.dead = false))).2 = true)
    (h : ∀ b ∈ s.tx.writeQueue, (s.tx.wbufs b).Empty) :
    ((sendPackets env s).tx.pkts s.tx.pkt).bufs.length =
      (s.tx.pkts s.tx.pkt).bufs.length + s.tx.writeQueue.length := by
  have htx : ∀ x, s.check .sendDead (s.st.dead = false) = x → x.tx = s.tx := fun _ hx => hx ▸ Stream.check_tx ..
  unfold sendPackets
  dsimp only
  generalize hx : s.check .sendDead (s.st.dead = false) = x at hmay
  rw [htx x hx, hr]
  show ((newPacketLoop env (newPacketBound x.tx) x).tx.pkts s.tx.pkt).bufs.length = _
  unfold newPacketBound newPacketLoop sendNewPacket
  rw [htx x hx, if_neg (by simpa using hq)]
  have hside := (Aside.refl x).streamMaySend false
  dsimp only
  rw [hmay]
  generalize (streamMaySend false x).1 = y at hside ⊢
  have hy : y.tx = s.tx := hside.tx.trans (htx x hx)
  rw [← hy] at hcap h hflag ⊢
  obtain ⟨hcap', hflag', hbufs⟩ := fillPacket_empty hcap h
  unfold buildPacket
  simpa [hcap', hcap, hflag', hflag, hasFlag] using hbufs

theorem queueWrite_tx (env : Env) (bufs : List (List UInt8)) (onAck isWriteEnd : Bool) (s : Stream) :
    (queueWrite env bufs onAck isWriteEnd s).tx = s.tx.queueWrite bufs onAck isWriteEnd := by
  unfold queueWrite probeWindow
  dsimp only
  split
  · exact (congrArg Core.tx (sendProbe_core env _) :)
  · rfl

/-- A call as it finds the stream. -/
def calledStream (c : Call) (s : Stream) : Stream :=
  let s := beginEvent (.call c) s
  s.note (.call c s.toCore)

/-- A write that is accepted queues its buffers and sends. -/
theorem step_write (env : Env) (bufs : List (List UInt8)) (onAck : Bool) {s : Stream}
    (hconn : s.st.connected = true) (hend : s.st.ending = false) (hbufs : bufs ≠ []) :
    (step env Hook.quiet (.call (.write bufs onAck)) s).tx =
      (sendPackets env (queueWrite env bufs onAck false (calledStream (.write bufs onAck) s))).tx := by
  have hresult : ∀ x, (writeResult x).1.tx = x.tx := by
    intro x
    unfold writeResult
    split <;> rfl
  have hcall : (step env Hook.quiet (.call (.write bufs onAck)) s).tx =
      (udxStreamWrite env bufs onAck (calledStream (.write bufs onAck) s)).1.tx := rfl
  have hconn' : (!(calledStream (.write bufs onAck) s).st.connected) = false := congrArg (! ·) hconn
  have hend' : (calledStream (.write bufs onAck) s).st.ending = false := hend
  rw [hcall]
  unfold udxStreamWrite _udxStreamWrite
  rw [if_neg (by simp [hconn']), if_neg (by simp [hend']), if_neg (by simpa using hbufs)]
  exact hresult _

/-- `udx_stream_connect` has connected the stream. -/
def connectedStream : Stream :=
  runEvents .free [.call (.connect ⟨0, .inet⟩ 2 ⟨.inet, 1, [1, 2, 3, 4]⟩)] (init .free numberedConfig)

/-- One buffer more than a packet has places for, and all of them empty. -/
def emptyBufs : List (List UInt8) := List.replicate (UDX_MAX_COMBINED_WRITES + 1) []

theorem emptyBufs_ne_nil : emptyBufs ≠ [] := List.cons_ne_nil _ _

/-- They are written. -/
def writtenStream : Stream :=
  queueWrite .free emptyBufs false false (calledStream (.write emptyBufs false) connectedStream)

/-- One write of them puts them all in one packet. -/
theorem SpacedPath.combined_crowded : ∃ s, Reach .free numberedConfig s ∧
    (s.tx.pkts 0).bufs.length = UDX_MAX_COMBINED_WRITES + 1 ∧ ¬ (s.tx.pkts 0).Combined := by
  have hreach : Reach .free numberedConfig
      (step .free Hook.quiet (.call (.write emptyBufs false)) connectedStream) :=
    .step _ (Reach.runEvents .init _) .quiet
  have htx := step_write .free emptyBufs false (s := connectedStream) (by decide +kernel) (by decide +kernel)
    emptyBufs_ne_nil
  rw [← writtenStream] at htx
  have hqueue := queueWrite_empty (UDX_MAX_COMBINED_WRITES + 1) false (t := connectedStream.tx) (by decide +kernel)
  have hwritten : writtenStream.tx = connectedStream.tx.queueWrite emptyBufs false false := queueWrite_tx ..
  rw [← emptyBufs, ← hwritten] at hqueue
  obtain ⟨hlen, hempty⟩ := hqueue
  have hsend := sendPackets_empty .free (s := writtenStream) (by decide +kernel)
    (List.length_pos_iff.mp (by omega)) (by decide +kernel) (by decide +kernel) (by decide +kernel) hempty
  have hbufs : (writtenStream.tx.pkts writtenStream.tx.pkt).bufs.length = 0 := by decide +kernel
  have hpkt : writtenStream.tx.pkt = 0 := by decide +kernel
  rw [hbufs, hpkt, Nat.zero_add, hlen, ← htx] at hsend
  refine ⟨_, hreach, hsend, fun hc => ?_⟩
  have hmax := hc.nwbufs
  omega

end Udx
