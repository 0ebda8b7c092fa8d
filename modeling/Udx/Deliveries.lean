/-
# Delivery

Two streams exchange datagrams, through relays or not, over a network that may
lose, repeat, delay and reorder them. In every interleaving, what one of them
reads is what the other one has written: the data of its first packets, in
order and each one once.

Key definitions: `Hears`, `Net`, `Orderly`.
Key theorems: `Net.hears`, `Heard.sent`, `Net.exchange`.
-/
import Udx.Forwarding
import Udx.Provenance
import Udx.Wires

namespace Udx

open Serial

/-! ### The network -/

/-- The datagram of a packet for the stream, where one came in. -/
def Entry.arrives : Entry → Option (List UInt8)
  | .event (.recv d _) pre =>
    match parse d with
    | some h => if h.remoteId = pre.peer.localId ∧ hasFlag h.type UDX_HEADER_DATA_OR_END then some d else none
    | none => none
  | _ => none

theorem Carried.of_leaves {a : Stream} {d : List UInt8} (h : d ∈ a.log.filterMap Entry.leaves) : Carried a d := by
  obtain ⟨e, he, hleaves⟩ := List.mem_filterMap.mp h
  cases e with
  | wire kind dest d' =>
    cases hleaves
    exact .sent he
  | _ => cases hleaves

/-- What `b` received of packets had been sent by `a`. -/
def Hears (a b : Stream) : Prop := ∀ d ∈ b.log.filterMap Entry.arrives, Carried a d

def Entry.isDropped : Entry → Bool
  | .dropped => true
  | _ => false

theorem Entry.isDropped_iff (e : Entry) : e.isDropped = true ↔ e = .dropped := by
  cases e <;> simp [isDropped]

instance (l : List Entry) : Decidable (.dropped ∈ l) :=
  decidable_of_iff (l.any Entry.isDropped = true) (by simp [Entry.isDropped_iff])

/-- Two streams and the network between them, which makes up no packets. -/
inductive Net (env env' : Env) (cfg cfg' : Config) : Stream → Stream → Prop
  | init : Net env env' cfg cfg' (Udx.init env cfg) (Udx.init env' cfg')
  | left {a b cb} (e : Event) : Net env env' cfg cfg' a b → Layered env cb → Hears b (step env cb e a) →
    Net env env' cfg cfg' (step env cb e a) b
  | right {a b cb} (e : Event) : Net env env' cfg cfg' a b → Layered env' cb → Hears a (step env' cb e b) →
    Net env env' cfg cfg' a (step env' cb e b)

section

variable {env env' : Env} {cb : Hook} {cfg cfg' : Config} {a b s t : Stream}

/-- What was sent stays sent. -/
theorem Hears.step (h : Hears a b) (ha : a.ctl = a.ctl.idle) (ht : Layered env cb) (e : Event) :
    Hears (Udx.step env cb e a) b := by
  obtain ⟨l, hl⟩ := (step_path ht.tame e ha).grows
  exact fun d hd => (h d hd).mono fun e he => hl ▸ List.mem_append_right _ he

namespace Net

theorem swap (h : Net env env' cfg cfg' a b) : Net env' env cfg' cfg b a := by
  induction h with
  | init => exact .init
  | left e _ ht hears ih => exact .right e ih ht hears
  | right e _ ht hears ih => exact .left e ih ht hears

theorem reach (h : Net env env' cfg cfg' a b) : Reach env cfg a := by
  induction h with
  | init => exact .init
  | left e _ ht _ ih => exact .step e ih ht
  | right _ _ _ _ ih => exact ih

theorem hears (h : Net env env' cfg cfg' a b) : Hears a b := by
  induction h with
  | init => exact fun d hd => absurd hd List.not_mem_nil
  | left e h ht _ ih => exact ih.step h.reach.idle ht e
  | right _ _ _ hears _ => exact hears

end Net

/-! ### What the packets brought -/

/-- A stream that still sends: its packets are all counted, and none of its
datagrams was torn. -/
structure Orderly (a : Stream) : Prop where
  opened : a.st.closed = false
  live : a.st.dead = false
  unrelayed : a.peer.relayed = false
  short : a.tx.pkt < 2 ^ 32
  whole : ∀ e ∈ a.log, e.halfCounted = false
  untorn : ∀ e ∈ a.log, e.torn = false

/-- What was received is a packet of the sender. -/
theorem Heard.packet (ha : Reach env cfg a) (ho : Orderly a) (hears : Hears a b) {seq : SeqNo} {x : OooBuf}
    (hx : Heard b.log seq x) : ∃ k < a.tx.pkt, seq = nth cfg.seq k ∧ x.type = (a.tx.pkts k).header.type ∧
      x.data = a.tx.payload k := by
  obtain ⟨d, same, pre, hmem, h, hparse, hid, hseq, htype, hflag, hpay⟩ := hx
  have harrives : Entry.arrives (.event (.recv d same) pre) = some d := by
    unfold Entry.arrives
    dsimp only
    rw [hparse]
    exact if_pos ⟨hid, hflag⟩
  obtain ⟨kind, dest, d', h', he, hparse', heq, hpayload, -⟩ :=
    (hears d (List.mem_filterMap.mpr ⟨_, hmem, harrives⟩)).reads hparse
  have htype' : h.type = h'.type := by rw [heq]
  have hseq' : h.seq = h'.seq := by rw [heq]
  have hs := ha.mailed
  rcases (hs.wires kind dest d' he).2 with hnone | ⟨k, -, hcarries⟩
  · rw [htype', hnone.2 h' hparse'] at hflag
    cases hflag
  have hno : ¬∃ e ∈ a.log, e.torn = true := fun ⟨e, he, ht⟩ => absurd ((ho.untorn e he).symm.trans ht) nofun
  obtain ⟨hk, hd, hparsed, htyped, hseqd, hpayd⟩ := read_carries hcarries hno
  obtain rfl : h' = hd := Option.some.inj (hparse'.symm.trans hparsed)
  have hnum : seq = nth cfg.seq k := by
    rw [← (hs.numbers ho.live ho.unrelayed).1.pkts k hk, ← hseqd, ← hseq', hseq]
  exact ⟨k, hk, hnum, (htype.symm.trans htype').trans htyped,
    Option.some.inj (hpay.symm.trans (hpayload.trans hpayd))⟩

/-- The packet at place `i` is the sender's packet `i`. -/
theorem Heard.sent (ha : Reach env cfg a) (ho : Orderly a) (hears : Hears a b) {i : ℕ} {x : OooBuf}
    (hx : Heard b.log (nth cfg.seq i) x) (hi : i ≤ a.tx.pkt) :
    i < a.tx.pkt ∧ x.type = (a.tx.pkts i).header.type ∧ x.data = a.tx.payload i := by
  obtain ⟨k, hk, hnum, hpacket⟩ := hx.packet ha ho hears
  have hshort := ho.short
  obtain rfl : i = k := nth_inj (by omega) (by omega) hnum
  exact ⟨hk, hpacket⟩

/-- A packet without data is empty. -/
theorem Tx.Mailed.payload_nil {t : Tx} (ht : t.Mailed) {k : ℕ} (hk : k < t.pkt)
    (hno : hasFlag (t.pkts k).header.type UDX_HEADER_DATA = false) : t.payload k = [] := by
  have hempty : ∀ c ∈ (t.pkts k).bufs, c.len = 0 := by
    intro c hc
    by_contra hlen
    exact absurd ((ht.data k hk ⟨c, hc, Nat.pos_of_ne_zero hlen⟩).symm.trans hno) nofun
  unfold Tx.payload
  rw [List.flatMap_eq_nil_iff]
  intro c hc
  show ((t.wbufs c.wbuf).buf.drop c.base).take c.len = []
  rw [hempty c hc, List.take_zero]

/-- What was taken are the sender's first packets. -/
theorem Traced.sent {got : ℕ → Option OooBuf} (hb : Traced cfg.seq got b) (ha : Reach env cfg a) (ho : Orderly a)
    (hears : Hears a b) : b.rx.taken ≤ a.tx.pkt ∧ ∀ i < b.rx.taken, ∃ x, got i = some x ∧
      (x.payload.toList).flatten = a.tx.payload i := by
  have hle : b.rx.taken ≤ a.tx.pkt := by
    by_contra hlt
    obtain ⟨x, hx⟩ := Option.isSome_iff_exists.mp (hb.below a.tx.pkt (by omega))
    have hsent := (hb.heard _ x hx).sent ha ho hears (Nat.le_refl _)
    exact absurd hsent.1 (Nat.lt_irrefl _)
  refine ⟨hle, fun i hi => ?_⟩
  obtain ⟨x, hx⟩ := Option.isSome_iff_exists.mp (hb.below i hi)
  obtain ⟨hlt, htype, hdata⟩ := (hb.heard i x hx).sent ha ho hears (by omega)
  refine ⟨x, hx, ?_⟩
  unfold OooBuf.payload
  split
  · rw [hdata]
    exact List.append_nil _
  · next hno =>
    rw [htype, Bool.not_eq_true] at hno
    rw [ha.mailed.tx.payload_nil hlt hno]
    rfl

theorem Orderly.parcels (ho : Orderly a) (ha : Reach env cfg a) : Counted a ∧ a.tx.Parcels :=
  ha.path.packed ho.opened ((ha.mailed.numbers ho.live ho.unrelayed).2 ho.short) ho.whole

/-- What was read is what the packets that were taken carried. -/
theorem Net.reads (h : Net env env' cfg cfg' a b) (hbase : cfg'.ack = cfg.seq) (ha : Orderly a)
    (hb : .dropped ∉ b.log) : b.rx.taken ≤ a.tx.pkt ∧ b.reads.flatten = a.tx.carried b.rx.taken := by
  obtain ⟨got, hp⟩ := h.swap.reach.provenance
  rw [hbase] at hp
  obtain ⟨hle, hsent⟩ := hp.traced.sent h.reach ha h.hears
  refine ⟨hle, ?_⟩
  rw [hp.traced.reads hb]
  generalize b.rx.taken = n at hsent
  clear hle
  induction n with
  | zero => rfl
  | succ n ih =>
    obtain ⟨x, hx, hpay⟩ := hsent n (Nat.lt_succ_self n)
    rw [Tx.carried_succ, List.range_succ, List.filterMap_append, List.flatten_append,
      ih fun i hi => hsent i (Nat.lt_succ_of_lt hi), ← hpay]
    congr 1
    rw [List.filterMap_cons, hx]
    cases hq : x.payload <;> simp [hq]

/-- In every interleaving, what a stream has read is the data of the sender's
first packets, and so the beginning of what the sender has written. -/
theorem Net.exchange (h : Net env env' cfg cfg' a b) (hbase : cfg'.ack = cfg.seq) (ha : Orderly a)
    (hb : .dropped ∉ b.log) :
    b.rx.taken ≤ a.tx.pkt ∧ b.reads.flatten = a.tx.carried b.rx.taken ∧ b.reads.flatten <+: a.tx.written := by
  obtain ⟨hle, hreads⟩ := h.reads hbase ha hb
  obtain ⟨-, hparcels⟩ := ha.parcels h.reach
  refine ⟨hle, hreads, ?_⟩
  rw [hreads]
  have hmore : a.tx.carried b.rx.taken <+: a.tx.carried (a.tx.pkt + 1) := by
    unfold Tx.carried
    refine List.IsPrefix.flatMap ?_ _
    rw [List.prefix_iff_eq_take, List.length_range, List.take_range, Nat.min_eq_left (by omega)]
  exact hmore.trans (hparcels.carried ▸ List.take_prefix ..)

end

theorem Hears.of_relayed {a b : Stream} (relay : Core) (h : ∀ d ∈ b.log.filterMap Entry.arrives,
    ∃ d' ∈ a.log.filterMap Entry.leaves, (forwardPacket relay d').map Prod.snd = some d) : Hears a b := by
  intro d hd
  obtain ⟨d', hd', hforward⟩ := h d hd
  obtain ⟨⟨dest, _⟩, hsome, rfl⟩ := Option.map_eq_some_iff.mp hforward
  exact .relayed relay (.of_leaves hd') hsome

/-- Two bytes are sent, each in a packet of its own. -/
def pairSender : Stream :=
  runEvents .free [.call (.connect ⟨0, .inet⟩ 4 ⟨.inet, 1, [1, 2, 3, 4]⟩), .call (.write [[5]] false), .prepare,
    .call (.write [[6]] false), .prepare] (Udx.init .free numberedConfig)

/-- The packets go to stream 4 of a relay, which sends them on through this one. -/
def pairRelay : Stream :=
  runEvents .free [.call (.connect ⟨1, .inet⟩ 2 ⟨.inet, 3, [1, 2, 3, 5]⟩)]
    (Udx.init .free { localId := 5, seq := 0, ack := 0, now := 0 })

def pairConfig : Config := { localId := 2, seq := 9, ack := 0, now := 0 }

/-- The datagram that reaches the peer of the packet sent after `i` others. -/
def pairDatagram (i : ℕ) : List UInt8 :=
  setRemoteId 2 ((pairSender.log.reverse.filterMap Entry.leaves).getD i [])

/-- The second packet comes first, and the first one comes twice. -/
def pairReceiver : Stream :=
  runEvents .free [.call .readStart, .recv (pairDatagram 1) true, .recv (pairDatagram 0) true,
    .recv (pairDatagram 0) true] (Udx.init .free pairConfig)

theorem pairReceiver_net : Net .free .free numberedConfig pairConfig pairSender pairReceiver := by
  have h0 : Net .free .free numberedConfig pairConfig _ _ := .init
  have h1 := h0.left (.call (.connect ⟨0, .inet⟩ 4 ⟨.inet, 1, [1, 2, 3, 4]⟩)) .quiet
    (.of_relayed pairRelay.toCore (by decide +kernel))
  have h2 := h1.left (.call (.write [[5]] false)) .quiet (.of_relayed pairRelay.toCore (by decide +kernel))
  have h3 := h2.left .prepare .quiet (.of_relayed pairRelay.toCore (by decide +kernel))
  have h4 := h3.left (.call (.write [[6]] false)) .quiet (.of_relayed pairRelay.toCore (by decide +kernel))
  have h5 := h4.left .prepare .quiet (.of_relayed pairRelay.toCore (by decide +kernel))
  have h6 := h5.right (.call .readStart) .quiet (.of_relayed pairRelay.toCore (by decide +kernel))
  have h7 := h6.right (.recv (pairDatagram 1) true) .quiet (.of_relayed pairRelay.toCore (by decide +kernel))
  have h8 := h7.right (.recv (pairDatagram 0) true) .quiet (.of_relayed pairRelay.toCore (by decide +kernel))
  have h9 := h8.right (.recv (pairDatagram 0) true) .quiet (.of_relayed pairRelay.toCore (by decide +kernel))
  unfold pairSender pairReceiver
  simp only [runEvents, List.foldl_cons, List.foldl_nil]
  exact h9

theorem Net.exchange_reordered : pairReceiver.rx.taken = 2 ∧
    pairReceiver.reads.flatten <+: pairSender.tx.written ∧ pairReceiver.reads.flatten = [5, 6] := by
  have hd := pairReceiver_net.exchange rfl ⟨by decide +kernel, by decide +kernel, by decide +kernel,
    by decide +kernel, by decide +kernel, by decide +kernel⟩ (by decide +kernel)
  refine ⟨?_, hd.2.2, hd.2.1.trans ?_⟩
  all_goals decide +kernel

end Udx
