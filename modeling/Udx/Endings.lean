/-
# The end of the stream

When a stream reports EOF, it has taken all packets before the END packet of
its peer, and the END packet is the last one with any data: all that was
written has been read, but for the data of the END packet itself where EOF came
before it. That happens: an `on_read` that connects the stream sends the
deferred ack, and with it EOF, while the END packet is in line.

Key theorems: `Tx.Tail.carried`, `Net.eof_whole`.
-/
import Udx.Deliveries

namespace Udx

open Serial

/-- After the END packet nothing was written. -/
theorem Tx.Tail.carried {t : Tx} (ht : t.Tail) {k : ℕ} (hk : k < t.pkt)
    (hend : hasFlag (t.pkts k).header.type UDX_HEADER_END = true) {n : ℕ} (hn : k + 1 ≤ n) (hn' : n ≤ t.pkt + 1) :
    t.carried n = t.carried (k + 1) := by
  obtain ⟨-, hbufs⟩ := ht.sent k hk hend
  induction n with
  | zero => omega
  | succ n ih =>
    rcases Nat.lt_or_eq_of_le hn with hlt | heq
    · have hnil : t.payload n = [] := by
        unfold payload
        rw [hbufs n (by omega) (by omega)]
        rfl
      rw [carried_succ, hnil, List.append_nil]
      exact ih (by omega) (by omega)
    · rw [← heq]

section

variable {env env' : Env} {cfg cfg' : Config} {a b : Stream}

/-- Nothing is left when the END packet has gone. -/
theorem Orderly.written (ho : Orderly a) (ha : Reach env cfg a) {k : ℕ} (hk : k < a.tx.pkt)
    (hend : hasFlag (a.tx.pkts k).header.type UDX_HEADER_END = true) : a.tx.carried (k + 1) = a.tx.written := by
  obtain ⟨hcounted, hparcels⟩ := ho.parcels ha
  have htail := ha.mailed.tx.tail
  have hwaiting : a.tx.waiting = [] := by
    unfold Tx.waiting
    rw [(htail.sent k hk hend).1]
    rfl
  rw [← hparcels.whole hcounted.books, hwaiting, List.append_nil]
  exact (htail.carried hk hend (by omega) (Nat.le_refl _)).symm

/-- EOF comes after all that was written, or after all before the END packet. -/
theorem Net.eof_whole (h : Net env env' cfg cfg' a b) (hbase : cfg'.ack = cfg.seq) (ha : Orderly a)
    (hshort : a.tx.pkt ≤ 2 ^ 31) (hb : .dropped ∉ b.log) (hended : b.st.endedRemote = true) :
    ∃ k < a.tx.pkt, hasFlag (a.tx.pkts k).header.type UDX_HEADER_END = true ∧ a.tx.carried (k + 1) = a.tx.written ∧
      k ≤ b.rx.taken ∧ b.reads.flatten = if k < b.rx.taken then a.tx.written else a.tx.carried k := by
  obtain ⟨hle, hreads⟩ := h.reads hbase ha hb
  obtain ⟨got, hp⟩ := h.swap.reach.provenance
  rw [hbase] at hp
  obtain ⟨seq, x, n, hx, hend, hn, hcmp⟩ := hp.traced.ended hended
  obtain ⟨k, hk, rfl, htype, -⟩ := hx.packet h.reach ha h.hears
  rw [htype] at hend
  have hwritten := ha.written h.reach hk hend
  have hkn : k ≤ n := by
    have hdiff := seqDiff_nth cfg.seq (i := k) (j := n) (by omega) (by omega)
    rw [seqCompare_nonpos, hdiff] at hcmp
    omega
  refine ⟨k, hk, hend, hwritten, Nat.le_trans hkn hn, ?_⟩
  rw [hreads]
  split
  · next hlt => exact (h.reach.mailed.tx.tail.carried hk hend hlt (by omega)).trans hwritten
  · next hge => rw [Nat.le_antisymm (Nat.le_of_not_lt hge) (Nat.le_trans hkn hn)]

end

theorem Hears.of_direct {a b : Stream} (h : ∀ d ∈ b.log.filterMap Entry.arrives, d ∈ a.log.filterMap Entry.leaves) :
    Hears a b := fun d hd => .of_leaves (h d hd)

/-- Two bytes are sent, the second one with the end of the stream. -/
def endSender : Stream :=
  runEvents .free [.call (.connect ⟨0, .inet⟩ 2 ⟨.inet, 1, [1, 2, 3, 4]⟩), .call (.write [[5]] false), .prepare,
    .call (.writeEnd [[6]] false)] (Udx.init .free numberedConfig)

def endPacket (i : ℕ) : List UInt8 := (endSender.log.reverse.filterMap Entry.leaves).getD i []

theorem endSender_net : Net .free .free numberedConfig pairConfig endSender (Udx.init .free pairConfig) := by
  have h0 : Net .free .free numberedConfig pairConfig _ _ := .init
  have h1 := h0.left (.call (.connect ⟨0, .inet⟩ 2 ⟨.inet, 1, [1, 2, 3, 4]⟩)) .quiet (.of_direct (by decide +kernel))
  have h2 := h1.left (.call (.write [[5]] false)) .quiet (.of_direct (by decide +kernel))
  have h3 := h2.left .prepare .quiet (.of_direct (by decide +kernel))
  have h4 := h3.left (.call (.writeEnd [[6]] false)) .quiet (.of_direct (by decide +kernel))
  unfold endSender
  simp only [runEvents, List.foldl_cons, List.foldl_nil]
  exact h4

theorem endSender_orderly : Orderly endSender :=
  ⟨by decide +kernel, by decide +kernel, by decide +kernel, by decide +kernel, by decide +kernel, by decide +kernel⟩

/-- The END packet comes first. -/
def endReceiver : Stream :=
  runEvents .free [.call (.connect ⟨0, .inet⟩ 1 ⟨.inet, 2, [1, 2, 3, 4]⟩), .call .readStart,
    .recv (endPacket 1) true, .recv (endPacket 0) true] (Udx.init .free pairConfig)

theorem endReceiver_net : Net .free .free numberedConfig pairConfig endSender endReceiver := by
  have h1 := endSender_net.right (.call (.connect ⟨0, .inet⟩ 1 ⟨.inet, 2, [1, 2, 3, 4]⟩)) .quiet
    (.of_direct (by decide +kernel))
  have h2 := h1.right (.call .readStart) .quiet (.of_direct (by decide +kernel))
  have h3 := h2.right (.recv (endPacket 1) true) .quiet (.of_direct (by decide +kernel))
  have h4 := h3.right (.recv (endPacket 0) true) .quiet (.of_direct (by decide +kernel))
  unfold endReceiver
  simp only [runEvents, List.foldl_cons, List.foldl_nil]
  exact h4

theorem Net.eof_whole_late : endReceiver.st.endedRemote = true ∧ endReceiver.rx.taken = 2 ∧
    endReceiver.reads.flatten = endSender.tx.written := by
  have hended : endReceiver.st.endedRemote = true := by decide +kernel
  obtain ⟨k, hk, -, -, -, hreads⟩ :=
    endReceiver_net.eof_whole rfl endSender_orderly (by decide +kernel) (by decide +kernel) hended
  have hpkt : endSender.tx.pkt = 2 := by decide +kernel
  have htaken : endReceiver.rx.taken = 2 := by decide +kernel
  rw [hpkt] at hk
  rw [htaken] at hreads
  exact ⟨hended, htaken, hreads.trans (if_pos hk)⟩

/-- An `on_read` that connects the stream. -/
def connectOnRead (env : Env) : Hook
  | .read _, s => call env Hook.quiet (.connect ⟨0, .inet⟩ 1 ⟨.inet, 2, [1, 2, 3, 4]⟩) s
  | _, s => s

theorem connectOnRead_layered (env : Env) : Layered env (connectOnRead env) := by
  refine .reacts .quiet fun c s => ?_
  cases c with
  | read data => exact .single ⟨.connect ⟨0, .inet⟩ 1 ⟨.inet, 2, [1, 2, 3, 4]⟩, rfl⟩
  | _ => exact .refl

/-- The deferred ack reports EOF while the END packet is in line, and its data
is never read. -/
theorem Net.eof_early : ∃ b : Stream, Net .free .free numberedConfig pairConfig endSender b ∧
    b.st.endedRemote = true ∧ b.reads = [[5]] ∧ endSender.tx.written = [5, 6] := by
  have h1 := endSender_net.right (.call .readStart) .quiet (.of_direct (by decide +kernel))
  have h2 := h1.right (.recv (endPacket 1) true) .quiet (.of_direct (by decide +kernel))
  have h3 := h2.right (.recv (endPacket 0) true) (connectOnRead_layered .free) (.of_direct (by decide +kernel))
  exact ⟨_, h3, by decide +kernel, by decide +kernel, by decide +kernel⟩

end Udx
