/-
# Where the stream's data comes from

Whatever the callbacks do to the stream: every payload passed to `on_read` was
carried by a datagram that the stream received, one sequence number after the
other from the initial ack on, and what the SACK tree holds was received as
well. A callback may leave a block in line behind, by making EOF be reported;
nothing is held any more after that. EOF is reported when an END packet was
received and all packets before it were taken. What is acknowledged was taken
or is held.

Key definitions: `Heard`, `Finished`, `Traced`, `Provenance`.
Key theorems: `processReadQueue_provenance`, `step_deaf`, `Reach.provenance`.
-/
import Udx.Numbered
import Udx.Shuts
import Udx.Reassembly
import Udx.Wires

namespace Udx

open Serial

/-- A datagram carries packet `b` of the peer, at sequence number `seq`, to the
stream with the id `id`. -/
def Brings (id seq : SeqNo) (b : OooBuf) (d : List UInt8) : Prop :=
  ∃ h, parse d = some h ∧ h.remoteId = id ∧ h.seq = seq ∧ h.type = b.type ∧
    hasFlag h.type UDX_HEADER_DATA_OR_END = true ∧ payload h d = some b.data

/-- Packet `b` of the peer was received at `seq`. -/
def Heard (log : List Entry) (seq : SeqNo) (b : OooBuf) : Prop :=
  ∃ d same pre, .event (.recv d same) pre ∈ log ∧ Brings pre.peer.localId seq b d

/-! ### Steps beside the read path -/

/-- A step that takes nothing from the peer and reopens nothing. -/
structure Deaf (s t : Stream) : Prop where
  unread : Unread s t
  shutting : Shutting s t
  log : ∃ l, t.log = l ++ s.log
  mailed : ∀ {seq P Q}, Mailed seq P Q s → Mailed seq P Q t

namespace Deaf

variable {s t u : Stream}

theorem refl (s : Stream) : Deaf s s := ⟨.refl s, .refl s, ⟨[], rfl⟩, id⟩

theorem trans (h : Deaf s t) (h' : Deaf t u) : Deaf s u := by
  obtain ⟨l, hl⟩ := h.log
  obtain ⟨l', hl'⟩ := h'.log
  exact ⟨h.unread.trans h'.unread, h.shutting.trans h'.shutting, ⟨l' ++ l, by rw [hl', hl, List.append_assoc]⟩,
    fun hm => h'.mailed (h.mailed hm)⟩

theorem still (h : Deaf s t) (htx : u.tx = t.tx) (hst : u.st = t.st) (hrx : u.rx = t.rx)
    (hposts : u.toCore.posts = t.toCore.posts) (hl : u.log = t.log) : Deaf s u := by
  refine h.trans ⟨(Unread.refl t).still (fun hd => hst ▸ hd) (congrArg Rx.intake hrx) hl,
    (Shutting.refl t).still ?_ hl, ⟨[], hl⟩, fun hm => hm.quiet htx (congrArg Status.dead hst) hposts hl⟩
  unfold Core.finale
  rw [hst, hrx]

theorem note (h : Deaf s t) {e : Entry} (he : e.read? = none) (heof : e.isEof = false)
    (hleaves : e.leaves = none) : Deaf s (t.note e) :=
  h.trans ⟨(Unread.refl t).note he, (Shutting.refl t).note heof, ⟨[e], rfl⟩, fun hm => hm.note fun _ _ _ heq =>
    absurd (heq ▸ hleaves) (Option.some_ne_none _)⟩

theorem mem_log (h : Deaf s t) {e : Entry} (he : e ∈ s.log) : e ∈ t.log := by
  obtain ⟨l, hl⟩ := h.log
  exact hl ▸ List.mem_append_right _ he

end Deaf

section

variable {env : Env} {s t : Stream}

theorem CallPath.deaf (h : CallPath env s t) : Deaf s t :=
  ⟨h.unread, h.shutting, h.keeps.log, fun hm => h.mailed hm⟩

theorem Move.grows (h : Move env s t) : ∃ l, t.log = l ++ s.log := h.hush.log

theorem Path.grows (h : Path env (Move env) s t) : ∃ l, t.log = l ++ s.log := by
  refine h.preserves (I := fun t => ∃ l, t.log = l ++ s.log) (fun hm hs => ?_) (fun hp hs => ?_) ⟨[], rfl⟩
  · obtain ⟨l, hl⟩ := hs
    obtain ⟨l', hl'⟩ := hm.grows
    exact ⟨l' ++ l, by rw [hl', hl, List.append_assoc]⟩
  · obtain ⟨l, hl⟩ := hs
    obtain ⟨l', hl'⟩ := hp.keeps.log
    exact ⟨l' ++ l, by rw [hl', hl, List.append_assoc]⟩

theorem Path.deaf (h : Path env (AckMove env) s t) : Deaf s t :=
  h.preserves (I := Deaf s)
    (fun hm hs => hs.trans ⟨hm.unread, hm.shutting, hm.toMove.grows, fun h => hm.mailed h⟩)
    (fun hp hs => hs.trans hp.deaf) (.refl s)

/-- One case for each move that is not about a datagram of the peer. -/
theorem LoopMove.unread (h : LoopMove env s t) : Unread s t := by
  have hs : Unread s s := .refl s
  cases h with
  | quiet e _ he =>
    have hbegin : Unread s (beginEvent e s) := (hs.note (e := .event e s.toCore) rfl).still id rfl rfl
    have hrun := Unread.runEvent_quiet env ((beginEvent_quiet e e s).trans he)
    exact (hbegin.trans hrun).still id rfl rfl
  | begin e => exact (hs.note (e := .event e s.toCore) rfl).still id rfl rfl
  | finish => exact hs.still id rfl rfl
  | asked => exact hs.still id rfl rfl
  | callback c _ hc => exact hs.note (by rcases hc with rfl | rfl <;> rfl)
  | giveUp =>
    have hclear : Unread s (clearTimer s) := hs.still id rfl rfl
    exact hclear.rtoStart.closeUnlessDestroying env _
  | copyGone => exact hs.still id rfl rfl
  | destroySent i =>
    have hdrop : Unread s (dropCopy i s) := hs.still id rfl rfl
    exact hdrop.closeStart env _
  | relayGone => exact hs.relayGone env
  | relay seq => exact (hs.note (e := .reached (.relay seq) s.toCore) rfl).still id rfl rfl
  | timewait type => exact processTimewait_unread env type s

theorem LoopMove.deaf (h : LoopMove env s t) : Deaf s t :=
  ⟨h.unread, h.shutting, (Move.loop h).grows, fun hm => h.mailed hm⟩

end

/-! ### What was taken -/

/-- EOF was reported with all before the peer's END packet taken. -/
def Finished (base : SeqNo) (s : Stream) : Prop :=
  ∃ seq b n, Heard s.log seq b ∧ hasFlag b.type UDX_HEADER_END = true ∧ n ≤ s.rx.taken ∧
    seqCompare seq (nth base n) ≤ 0

/-- `a` was the ack before the packet at place `n` was taken. -/
def Acked (base : SeqNo) (n : ℕ) (a : SeqNo) : Prop := ∃ i ≤ n, a = nth base i

/-- All packets of the range were received. -/
def Covered (base : SeqNo) (got : ℕ → Option OooBuf) (r : SeqNo × SeqNo) : Prop :=
  ∀ p : SeqNo, (p - r.1).toNat < (r.2 - r.1).toNat → ∃ i, p = nth base i ∧ (got i).isSome = true

/-- What a stream took is what it received, in order; `on_read` got all of it
if it was set all along. What it acknowledges it took or holds. -/
structure Traced (base : SeqNo) (got : ℕ → Option OooBuf) (s : Stream) : Prop where
  heard : ∀ i b, got i = some b → Heard s.log (nth base i) b
  ack : s.rx.ack = nth base s.rx.taken
  below : ∀ i < s.rx.taken, (got i).isSome
  reads : .dropped ∉ s.log →
    s.reads = (List.range s.rx.taken).filterMap fun i => (got i).bind OooBuf.payload
  ending : s.st.endingRemote = true → ∃ b, Heard s.log s.rx.remoteEnded b ∧ hasFlag b.type UDX_HEADER_END = true
  ended : s.st.endedRemote = true → Finished base s
  mailed : ∃ seq, Mailed seq (Acked base s.rx.taken) (Covered base got) s

section

variable {base : SeqNo} {got : ℕ → Option OooBuf} {s t : Stream}

theorem Heard.mono {log log' : List Entry} {seq : SeqNo} {b : OooBuf} (h : Heard log seq b)
    (hsub : ∀ e ∈ log, e ∈ log') : Heard log' seq b := by
  obtain ⟨d, same, pre, hmem, hd⟩ := h
  exact ⟨d, same, pre, hsub _ hmem, hd⟩

theorem Acked.mono {n m : ℕ} {a : SeqNo} (h : Acked base n a) (hnm : n ≤ m) : Acked base m a := by
  obtain ⟨i, hi, rfl⟩ := h
  exact ⟨i, Nat.le_trans hi hnm, rfl⟩

theorem Covered.update {r : SeqNo × SeqNo} (h : Covered base got r) (i : ℕ) (b : OooBuf) :
    Covered base (Function.update got i (some b)) r := by
  intro p hp
  obtain ⟨j, hj, hgot⟩ := h p hp
  refine ⟨j, hj, ?_⟩
  by_cases hji : j = i
  · rw [hji, Function.update_self]
    rfl
  · rw [Function.update_of_ne hji]
    exact hgot

/-- The blocks of the tree hold what was received. -/
theorem Held.covered {lo : ℕ} (h : Held base got lo s) (hlo : s.rx.taken ≤ lo) :
    ∀ b ∈ s.rx.sackTree, Covered base got (b.start, b.stop) := by
  obtain ⟨rs, hord, hnear, htree, hget⟩ := h
  intro b hb p hp
  rw [htree] at hb
  obtain ⟨r, hr, rfl⟩ := List.mem_map.mp hb
  have hstart := hord.le_start hr
  have hstop := hord.lt_stop hr
  have hnear' := hnear r hr
  have hlen : (nth base r.stop - nth base r.start).toNat = r.stop - r.start :=
    toNat_sub_nth base (Nat.le_of_lt hstop) (by omega)
  have hlt : (p - nth base r.start).toNat < r.stop - r.start := hlen ▸ hp
  refine ⟨r.start + (p - nth base r.start).toNat, ?_, ?_⟩
  · rw [nth_add]
    exact exists_nth _ _
  · rw [← hget _ (by omega)]
    exact Runs.get_isSome hord hr (by omega) (by omega)

theorem Finished.mono (hs : Finished base s) (htaken : s.rx.taken ≤ t.rx.taken) (hlog : ∀ e ∈ s.log, e ∈ t.log) :
    Finished base t := by
  obtain ⟨seq, b, n, hb, hend, hn, hcmp⟩ := hs
  exact ⟨seq, b, n, hb.mono hlog, hend, Nat.le_trans hn htaken, hcmp⟩

theorem Traced.deaf (hs : Traced base got s) (h : Deaf s t) : Traced base got t := by
  refine ⟨fun i b hb => (hs.heard i b hb).mono fun _ => h.mem_log, ?_, ?_, fun hno => ?_, fun hending => ?_,
    fun hended => ?_, ?_⟩
  · rw [h.unread.ack, h.unread.taken]
    exact hs.ack
  · rw [h.unread.taken]
    exact hs.below
  · rw [h.unread.reads, h.unread.taken]
    exact hs.reads fun hmem => hno (h.mem_log hmem)
  · obtain ⟨b, hb, hend⟩ := hs.ending (h.shutting.ending ▸ hending)
    exact ⟨b, h.shutting.remoteEnded ▸ hb.mono fun _ => h.mem_log, hend⟩
  · have htaken : s.rx.taken ≤ t.rx.taken := Nat.le_of_eq h.unread.taken.symm
    rcases h.shutting.due hended with he | ⟨hending, hcmp⟩
    · exact (hs.ended he).mono htaken fun _ => h.mem_log
    · obtain ⟨b, hb, hend⟩ := hs.ending hending
      exact ⟨_, b, s.rx.taken, hb.mono fun _ => h.mem_log, hend, htaken, hs.ack ▸ hcmp⟩
  · obtain ⟨seq, hm⟩ := hs.mailed
    rw [h.unread.taken]
    exact ⟨seq, h.mailed hm⟩

/-- The packets that were taken, as a list. -/
theorem Traced.items (hs : Traced base got s) : ∃ items : List OooBuf, items.length = s.rx.taken ∧
    (∀ i < s.rx.taken, got i = items[i]?) ∧ (List.range s.rx.taken).filterMap (fun i => (got i).bind OooBuf.payload) =
      items.filterMap OooBuf.payload := by
  have hbelow := hs.below
  generalize s.rx.taken = n at hbelow
  induction n with
  | zero => exact ⟨[], rfl, fun i hi => absurd hi (Nat.not_lt_zero i), rfl⟩
  | succ n ih =>
    obtain ⟨items, hlen, hitems, hpay⟩ := ih fun i hi => hbelow i (Nat.lt_succ_of_lt hi)
    obtain ⟨b, hb⟩ := Option.isSome_iff_exists.mp (hbelow n (Nat.lt_succ_self n))
    refine ⟨items ++ [b], by simp [hlen], fun i hi => ?_, ?_⟩
    · rcases Nat.lt_succ_iff_lt_or_eq.mp hi with hlt | rfl
      · rw [hitems i hlt, List.getElem?_append_left (hlen.symm ▸ hlt)]
      · rw [hb, ← hlen, List.getElem?_concat_length]
    · rw [List.range_succ, List.filterMap_append, List.filterMap_append, hpay]
      congr 1
      rw [List.filterMap_cons, List.filterMap_cons, hb]
      rfl

/-- A packet that was not taken yet is received. -/
theorem Traced.update (hs : Traced base got s) {i : ℕ} (hi : s.rx.taken ≤ i) {b : OooBuf}
    (hb : Heard s.log (nth base i) b) : Traced base (Function.update got i (some b)) s := by
  have hkeep : ∀ j < s.rx.taken, Function.update got i (some b) j = got j := fun j hj =>
    Function.update_of_ne (by omega) _ _
  refine ⟨fun j c hc => ?_, hs.ack, fun j hj => ?_, fun hno => ?_, hs.ending, hs.ended,
    hs.mailed.imp fun _ hm => hm.mono (fun _ ha => ha) fun _ hr => hr.update i b⟩
  · by_cases hji : j = i
    · subst hji
      rw [Function.update_self] at hc
      exact Option.some.inj hc ▸ hb
    · rw [Function.update_of_ne hji] at hc
      exact hs.heard j c hc
  · rw [hkeep j hj]
    exact hs.below j hj
  · rw [hs.reads hno]
    refine List.filterMap_congr fun j hj => ?_
    rw [hkeep j (List.mem_range.mp hj)]

/-- The next packet is taken. -/
theorem Traced.next (hs : Traced base got s) {b : OooBuf} (hb : got s.rx.taken = some b)
    (hack : t.rx.ack = s.rx.ack + 1) (htaken : t.rx.taken = s.rx.taken + 1)
    (hlog : ∀ e ∈ s.log, e ∈ t.log) (hst : t.st = s.st) (hend : t.rx.remoteEnded = s.rx.remoteEnded)
    (hmailed : ∀ {seq P Q}, Mailed seq P Q s → P t.rx.ack → Mailed seq P Q t)
    (hreads : .dropped ∉ t.log → t.reads = s.reads ++ b.payload.toList) : Traced base got t := by
  refine ⟨fun i c hc => (hs.heard i c hc).mono hlog, ?_, fun i hi => ?_, fun hno => ?_, fun hending => ?_,
    fun hended => (hs.ended (hst ▸ hended)).mono (by omega) hlog, ?_⟩
  · rw [hack, htaken, nth_succ, hs.ack]
  · rw [htaken] at hi
    rcases Nat.lt_succ_iff_lt_or_eq.mp hi with hlt | rfl
    · exact hs.below i hlt
    · rw [hb]
      rfl
  · rw [hreads hno, htaken, hs.reads fun hmem => hno (hlog _ hmem), List.range_succ, List.filterMap_append]
    congr 1
    rw [List.filterMap_cons, hb]
    cases h : b.payload <;> simp [h]
  · obtain ⟨c, hc, hcend⟩ := hs.ending (hst ▸ hending)
    exact ⟨c, hend ▸ hc.mono hlog, hcend⟩
  · obtain ⟨seq, hm⟩ := hs.mailed
    refine ⟨seq, hmailed (hm.mono (fun a ha => ha.mono (by omega)) fun _ hr => hr) ⟨t.rx.taken, Nat.le_refl _, ?_⟩⟩
    rw [hack, htaken, nth_succ, hs.ack]

/-- A payload goes to `on_read`, where it is not dropped. -/
theorem announceRead_reads (data : List UInt8) (s : Stream) (hno : .dropped ∉ (announceRead data s).log) :
    (announceRead data s).reads = s.reads ++ [data] := by
  unfold announceRead at hno ⊢
  split
  · exact Stream.reads_note (.callback (.read data)) s
  · next hoff =>
    rw [if_neg hoff] at hno
    exact absurd (List.mem_cons_self ..) hno

theorem announceRead_mem (data : List UInt8) {s : Stream} {e : Entry} (he : e ∈ s.log) :
    e ∈ (announceRead data s).log := by
  unfold announceRead
  split <;> exact List.mem_cons_of_mem _ he

theorem announceRead_st (data : List UInt8) (s : Stream) : (announceRead data s).st = s.st := by
  unfold announceRead
  split <;> rfl

/-! ### process_data_packet -/

theorem placeOf_near {seq : SeqNo} (hack : s.rx.ack = nth base s.rx.taken)
    (hseq : seqCompare s.rx.ack seq ≤ 0) :
    seq = nth base (placeOf seq s) ∧ s.rx.taken ≤ placeOf seq s ∧ placeOf seq s ≤ s.rx.taken + 2 ^ 31 := by
  have hdiff := seqCompare_nonpos.mp hseq
  refine ⟨?_, Nat.le_add_right _ _, ?_⟩
  · unfold placeOf
    rw [nth_add, ← hack]
    exact exists_nth _ _
  · have hle : (seq - s.rx.ack).toNat ≤ 2 ^ 31 := by
      unfold seqDiff at hdiff
      rw [BitVec.toInt_eq_toNat_cond] at hdiff
      have hx := s.rx.ack.isLt
      have hy := seq.isLt
      rw [BitVec.toNat_sub] at hdiff ⊢
      split at hdiff <;> omega
    unfold placeOf
    omega

/-- The next packet in line goes to `on_read`. -/
theorem announceRead_traced (type : UInt8) (data : List UInt8) (h : Traced base got s)
    (hheld : Held base got (s.rx.taken + 1) s) (hdata : hasFlag type UDX_HEADER_DATA = true)
    (hb : Heard s.log s.rx.ack ⟨type, data⟩) :
    let t := announceRead data (takeNext (noteAccept type s.rx.ack data s))
    let got' := Function.update got s.rx.taken (some ⟨type, data⟩)
    Traced base got' t ∧ Held base got' t.rx.taken t := by
  intro t got'
  have hrx : t.rx = (takeNext (noteAccept type s.rx.ack data s)).rx := announceRead_rx ..
  have htaken : t.rx.taken = s.rx.taken + 1 := congrArg Rx.taken hrx
  have hnote : (takeNext (noteAccept type s.rx.ack data s)).reads = s.reads :=
    (Stream.reads_note (.accept (s.rx.taken + (s.rx.ack - s.rx.ack).toNat) type data) s).trans (List.append_nil _)
  refine ⟨(h.update (Nat.le_refl _) (h.ack ▸ hb)).next (Function.update_self ..) (congrArg Rx.ack hrx) htaken
    (fun e he => announceRead_mem data (List.mem_cons_of_mem _ he)) (announceRead_st data _)
    (congrArg Rx.remoteEnded hrx :) (fun hm hack => hm.acceptNext type s.rx.ack data hack) fun hno => ?_, ?_⟩
  · rw [announceRead_reads data _ hno, hnote]
    simp [OooBuf.payload, hdata]
  · obtain ⟨rs, hord, hnear, htree, hget⟩ := hheld
    refine ⟨rs, htaken ▸ hord, hnear.mono (by omega), (congrArg Rx.sackTree hrx).trans htree, fun i hi => ?_⟩
    rw [hget i (by omega)]
    exact (Function.update_of_ne (by omega) _ _).symm

/-- A packet out of line is held at its place, if it is new. -/
theorem holdPacket_traced (type : UInt8) {seq : SeqNo} (data : List UInt8) (h : Traced base got s)
    (hheld : Held base got (s.rx.taken + 1) s) (hseq : seqCompare s.rx.ack seq ≤ 0)
    (hb : Heard s.log seq ⟨type, data⟩) :
    let t := holdPacket type seq data s
    let got' := receivePacket (placeOf seq s) ⟨type, data⟩ got
    Traced base got' t ∧ Held base got' t.rx.taken t := by
  obtain ⟨hplace, hlo, hhi⟩ := placeOf_near h.ack hseq
  obtain ⟨rs, hord, hnear, htree, hget⟩ := hheld
  generalize placeOf seq s = i at hplace hlo hhi
  have hhold := sackTreeHold_held base ⟨type, data⟩ hlo hhi (Nat.lt_succ_self _) hord hnear
  rw [← htree, ← hplace, hget i hlo] at hhold
  unfold holdPacket receivePacket
  rw [hhold]
  cases hi : got i with
  | some b => exact ⟨h, rs, hord.mono (Nat.le_succ _), hnear, htree, hget⟩
  | none =>
    have hnote : Deaf s (noteAccept type seq data s) := (Deaf.refl s).note rfl rfl rfl
    have htraced := (h.update hlo (hplace ▸ hb)).deaf hnote
    have hheld : Held base (Function.update got i (some ⟨type, data⟩)) s.rx.taken
        (setSackTree ((Runs.insert i ⟨type, data⟩ rs).map (heldBlock base)) (noteAccept type seq data s)) := by
      refine ⟨Runs.insert i ⟨type, data⟩ rs, Runs.insert_ordered _ hlo (hord.mono (Nat.le_succ _)),
        Runs.insert_stop_le _ (Nat.lt_succ_of_le hhi) hnear, rfl, fun j hj => ?_⟩
      by_cases hji : j = i
      · subst hji
        rw [Runs.get_insert_self hord _ ((hget j hj).trans hi)]
        exact (Function.update_self j (some (OooBuf.mk type data)) got).symm
      · rw [Runs.get_insert_of_ne i _ hji, hget j hj]
        exact (Function.update_of_ne hji _ _).symm
    exact ⟨⟨htraced.heard, htraced.ack, htraced.below, htraced.reads, htraced.ending, htraced.ended,
      htraced.mailed.imp fun _ hm => hm.setSackTree (hheld.covered (Nat.le_refl _))⟩, hheld⟩

/-- The packet is taken or held, and a callback may have followed. -/
theorem processDataPacket_traced {env : Env} {cb : Hook} (ht : Tame env cb) (type : UInt8) {seq : SeqNo}
    (data : List UInt8) (h : Traced base got s) (hheld : Held base got (s.rx.taken + 1) s)
    (hseq : seqCompare s.rx.ack seq ≤ 0) (hb : Heard s.log seq ⟨type, data⟩) :
    let t := processDataPacket cb type seq data s
    let got' := receivePacket (placeOf seq s) ⟨type, data⟩ got
    Traced base got' t ∧ (t.st.dead = false → Held base got' t.rx.taken t) := by
  unfold processDataPacket
  split
  · next hfast =>
    obtain ⟨rfl, hdata⟩ := hfast
    obtain ⟨htraced, hheld'⟩ := announceRead_traced type data h hheld hdata hb
    have hplace : placeOf s.rx.ack s = s.rx.taken := by simp [placeOf]
    have hnew : receivePacket s.rx.taken ⟨type, data⟩ got =
        Function.update got s.rx.taken (some ⟨type, data⟩) := by
      unfold receivePacket
      rw [hheld.missing]
      rfl
    have hcall := (readData_path ht data (takeNext (noteAccept type s.rx.ack data s))).deaf
    dsimp only
    rw [hplace, hnew]
    refine ⟨htraced.deaf hcall, fun hlive => ?_⟩
    rw [hcall.unread.taken]
    exact hcall.unread.held hlive hheld'
  · obtain ⟨htraced, hheld'⟩ := holdPacket_traced type data h hheld hseq hb
    exact ⟨htraced, fun _ => hheld'⟩

/-! ### The read queue -/

/-- The loop over a block that has come in line takes all of it, unless a
callback destroys the stream. -/
theorem drainLoop_traced {env : Env} {cb : Hook} (ht : Tame env cb) {s : Stream} (bufs : List OooBuf)
    (h : Traced base got s) (hgot : ∀ k < bufs.length, got (s.rx.taken + k) = bufs[k]?) :
    let t := drainLoop cb bufs s
    Traced base got t ∧ (t.st.dead = false →
      t.rx.taken = s.rx.taken + bufs.length ∧ t.rx.sackTree = s.rx.sackTree) := by
  induction bufs generalizing s with
  | nil => exact ⟨h, fun _ => ⟨rfl, rfl⟩⟩
  | cons b rest ih =>
    have hb : got s.rx.taken = some b := hgot 0 (Nat.succ_pos _)
    have hrest : ∀ k < rest.length, got (s.rx.taken + 1 + k) = rest[k]? := by
      intro k hk
      rw [Nat.add_right_comm, Nat.add_assoc]
      exact hgot (k + 1) (Nat.succ_lt_succ hk)
    unfold drainLoop
    dsimp only
    by_cases hdata : hasFlag b.type UDX_HEADER_DATA = true
    · rw [if_pos hdata]
      have hcall := (readData_path ht b.data (takeNext (setDraining rest s))).deaf
      have hrx := announceRead_rx b.data (takeNext (setDraining rest s))
      have hnext : Traced base got (announceRead b.data (takeNext (setDraining rest s))) :=
        h.next hb (congrArg Rx.ack hrx) (congrArg Rx.taken hrx) (fun e he => announceRead_mem b.data he)
          (announceRead_st b.data _) (congrArg Rx.remoteEnded hrx :)
          (fun hm hack => hm.drainNext rest b.data hack) fun hno => by
            rw [announceRead_reads b.data _ hno]
            simp only [OooBuf.payload, hdata, if_true, Option.toList_some]
            rfl
      have htaken : (readData cb b.data (takeNext (setDraining rest s))).rx.taken = s.rx.taken + 1 :=
        hcall.unread.taken.trans (congrArg Rx.taken hrx)
      have htree : (readData cb b.data (takeNext (setDraining rest s))).st.dead = false →
          (readData cb b.data (takeNext (setDraining rest s))).rx.sackTree = s.rx.sackTree := fun hlive =>
        (hcall.unread.sackTree hlive).trans (congrArg Rx.sackTree hrx :)
      generalize readData cb b.data (takeNext (setDraining rest s)) = t at hcall htaken htree ⊢
      split
      · next hdead => exact ⟨hnext.deaf hcall, fun hlive => absurd hdead (by simp [hlive])⟩
      · next hlive =>
        obtain ⟨htraced, hend⟩ := ih (hnext.deaf hcall) (htaken ▸ hrest)
        refine ⟨htraced, fun hdead => ?_⟩
        obtain ⟨h1, h2⟩ := hend hdead
        refine ⟨?_, h2.trans (htree (Bool.eq_false_iff.mpr hlive))⟩
        rw [h1, htaken, List.length_cons]
        omega
    · rw [if_neg hdata]
      have hnext : Traced base got (takeNext (setDraining rest s)) :=
        h.next hb rfl rfl (fun _ => id) rfl rfl (fun hm hack => (hm.takeNext hack).quiet rfl rfl rfl rfl) fun _ => by
          simp only [OooBuf.payload, hdata, Bool.false_eq_true, if_false, Option.toList_none, List.append_nil]
          rfl
      obtain ⟨htraced, hend⟩ := ih (s := takeNext (setDraining rest s)) hnext hrest
      refine ⟨htraced, fun hdead => ?_⟩
      obtain ⟨h1, h2⟩ := hend hdead
      refine ⟨?_, h2⟩
      rw [h1, List.length_cons]
      show s.rx.taken + 1 + rest.length = _
      omega

/-- What an event leaves: all that came in line is taken, unless EOF was
reported meanwhile. -/
structure Provenance (base : SeqNo) (got : ℕ → Option OooBuf) (s : Stream) : Prop where
  traced : Traced base got s
  held : s.st.dead = false → Held base got s.rx.taken s
  line : s.st.dead = false → s.st.endedRemote = false → Held base got (s.rx.taken + 1) s

theorem Provenance.deaf (hs : Provenance base got s) (h : Deaf s t) : Provenance base got t := by
  have hsource : t.st.dead = false → s.st.dead = false := fun hlive =>
    Bool.eq_false_iff.mpr fun hd => absurd (h.unread.dead hd) (by simp [hlive])
  have hopen : t.st.endedRemote = false → s.st.endedRemote = false := fun ho =>
    Bool.eq_false_iff.mpr fun he => absurd (h.shutting.ended he) (by simp [ho])
  refine ⟨hs.traced.deaf h, fun hlive => ?_, fun hlive ho => ?_⟩
  · rw [h.unread.taken]
    exact h.unread.held hlive (hs.held (hsource hlive))
  · rw [h.unread.taken]
    exact h.unread.held hlive (hs.line (hsource hlive) (hopen ho))

/-- A dead stream holds nothing. -/
theorem Traced.provenance (h : Traced base got s) (hdead : s.st.dead = true) : Provenance base got s :=
  ⟨h, fun hlive => absurd hdead (by simp [hlive]), fun hlive => absurd hdead (by simp [hlive])⟩

end

/-! ### process_packet -/

section

variable {env : Env} {cb : Hook} {base : SeqNo} {got : ℕ → Option OooBuf} {p : RxPacket} {s t : Stream}

/-- A datagram whose payload was looked at. -/
structure Looked (base : SeqNo) (got : ℕ → Option OooBuf) (p : RxPacket) (s : Stream) : Prop where
  traced : Traced base got s
  held : Held base got s.rx.taken s
  carries : Carries p s
  live : s.st.dead = false
  unprocessed : s.ctl.processing = false
  drained : s.ctl.draining = []

theorem processReadQueue_provenance (ht : Tame env cb) (h : Looked base got p s) :
    Provenance base got (processReadQueue env cb p s) := by
  have hack : ∀ {t : Stream}, Carries p t → t.st.dead = false → t.ctl.processing = false →
      t.ctl.draining = [] → Provenance base got t → Provenance base got (processAck env cb p t) :=
    fun hc hlive hproc hdrain hp => hp.deaf (processAck_path ht hc hlive hproc hdrain).1.deaf
  obtain ⟨rs, hord, hnear, htree, hget⟩ := h.held
  unfold processReadQueue
  split
  · next hnil =>
    obtain rfl : rs = [] := List.map_eq_nil_iff.mp (htree.symm.trans hnil)
    exact hack h.carries h.live h.unprocessed h.drained
      ⟨h.traced, fun _ => h.held, fun _ _ => ⟨[], trivial, hnear, htree, hget⟩⟩
  next block rest hcons =>
  cases rs with
  | nil => cases hcons.symm.trans htree
  | cons r rs =>
    obtain ⟨rfl, rfl⟩ := List.cons.inj (hcons.symm.trans htree)
    have hstop := hnear r List.mem_cons_self
    have hpos := hord.start_lt_stop
    have hlo := hord.1
    split
    · next hline =>
      have hstart : r.start = s.rx.taken := by
        refine nth_inj (s := base) (by omega) (by omega) ?_
        rw [← h.traced.ack]
        exact hline.2
      have hset : Traced base got (setDraining (heldBlock base r).packetQueue
          (setSackTree (rs.map (heldBlock base)) s)) := by
        refine ⟨h.traced.heard, h.traced.ack, h.traced.below, h.traced.reads, h.traced.ending, h.traced.ended,
          h.traced.mailed.imp fun _ hm => (hm.setSackTree fun b hb => hm.tree b ?_).quiet rfl rfl rfl rfl⟩
        rw [htree]
        exact List.mem_cons_of_mem _ hb
      obtain ⟨-, hc, hidle⟩ := drainLoop_path ht (heldBlock base r).packetQueue
        (s := setDraining (heldBlock base r).packetQueue (setSackTree (rs.map (heldBlock base)) s))
        (h.carries.of_rx rfl rfl rfl) h.live h.unprocessed rfl
      obtain ⟨htraced, hend⟩ := drainLoop_traced ht (heldBlock base r).packetQueue hset (by
        intro k hk
        show got (s.rx.taken + k) = r.items[k]?
        rw [← hget _ (Nat.le_add_right _ _), ← hstart]
        exact Runs.get_head hk)
      dsimp only at htraced hend hc hidle ⊢
      generalize drainLoop cb (heldBlock base r).packetQueue (setDraining (heldBlock base r).packetQueue
        (setSackTree (rs.map (heldBlock base)) s)) = t at htraced hend hc hidle ⊢
      split
      · next hdead => exact htraced.provenance hdead
      · next hdead =>
        have hlive : t.st.dead = false := Bool.eq_false_iff.mpr hdead
        obtain ⟨htaken, hrest⟩ := hend hlive
        obtain ⟨hdrain, hproc⟩ := hidle.resolve_left hdead
        have hstop' : t.rx.taken = r.stop := by
          rw [htaken, Run.stop, hstart]
          rfl
        -- the blocks after the one that was drained are not adjacent to it
        have hheld : Held base got (t.rx.taken + 1) t := by
          refine ⟨rs, hstop' ▸ hord.2.2, hnear.tail.mono (by omega), hrest, fun i hi => ?_⟩
          rw [← hget i (by omega)]
          exact (Runs.get_tail (by omega)).symm
        exact hack hc hlive hproc hdrain ⟨htraced, fun _ => hheld.mono (Nat.le_succ _), fun _ _ => hheld⟩
    · next hline =>
      refine hack h.carries h.live h.unprocessed h.drained ⟨h.traced, fun _ => h.held, fun hlive ho => ?_⟩
      have hshould : s.st.shouldRead = true := by
        unfold Status.shouldRead
        rw [ho, hlive]
        rfl
      have hne : r.start ≠ s.rx.taken := fun he => hline ⟨hshould, by rw [h.traced.ack, ← he]; rfl⟩
      exact ⟨r :: rs, ⟨by omega, hord.2⟩, hnear, htree, hget⟩

/-- A callback or a step beside the payload keeps what is known of it. -/
theorem Looked.deaf (h : Looked base got p s) (hd : Deaf s t) (hc : Carries p t) (hlive : t.st.dead = false)
    (hproc : t.ctl.processing = s.ctl.processing) (hdrain : t.ctl.draining = s.ctl.draining) :
    Looked base got p t := by
  refine ⟨h.traced.deaf hd, ?_, hc, hlive, hproc.trans h.unprocessed, hdrain.trans h.drained⟩
  rw [hd.unread.taken]
  exact hd.unread.held hlive h.held

theorem processMessage_provenance (ht : Tame env cb) (h : Looked base got p s) :
    Provenance base got (processMessage env cb p s) := by
  unfold processMessage
  split
  · have hcall := ht.invoke (.recv p.data) s
    have hnote : Keeps s (s.note (.callback (.recv p.data))) := (Keeps.refl s).note (fun _ _ => by simp)
    have hkeep := hnote.trans hcall.keeps
    have hdeaf : Deaf s (s.invoke cb (.recv p.data)) := ((Deaf.refl s).note rfl rfl rfl).trans hcall.deaf
    generalize s.invoke cb (.recv p.data) = t at hkeep hdeaf ⊢
    dsimp only
    split
    · next hdead => exact (h.traced.deaf hdeaf).provenance hdead
    · next hdead =>
      exact processReadQueue_provenance ht (h.deaf hdeaf (h.carries.keeps hkeep) (Bool.eq_false_iff.mpr hdead)
        hkeep.processing hkeep.draining)
  · exact processReadQueue_provenance ht h

theorem processEndBits_provenance (ht : Tame env cb) (h : Looked base got p s)
    (hb : hasFlag p.h.type UDX_HEADER_DATA_OR_END = true → Heard s.log p.h.seq ⟨p.h.type, p.data⟩) :
    Provenance base got (processEndBits env cb p s) := by
  have hrest : ∀ {x : Stream}, Looked base got p x → Provenance base got
      (if hasFlag p.h.type UDX_HEADER_DESTROY = true then closeStream env cb .connReset x
        else processMessage env cb p x) := by
    intro x hx
    split
    · have hclose := (closeStream_path ht .connReset x (.inr (.inr (by simp)))).deaf
      exact (hx.traced.deaf hclose).provenance (closeStream_dead ht .connReset x)
    · exact processMessage_provenance ht hx
  unfold processEndBits
  dsimp only
  by_cases hend : hasFlag p.h.type UDX_HEADER_END = true
  · rw [if_pos hend]
    have hboth : hasFlag p.h.type UDX_HEADER_DATA_OR_END = true := by
      rw [hasFlag_dataOrEnd, hend, Bool.or_true]
    have hset : Traced base got (setEndingRemote p.h.seq s) :=
      ⟨h.traced.heard, h.traced.ack, h.traced.below, h.traced.reads, fun _ => ⟨_, hb hboth, hend⟩, h.traced.ended,
        h.traced.mailed.imp fun _ hm => hm.quiet rfl rfl rfl rfl⟩
    exact hrest ⟨hset, h.held, h.carries.of_rx rfl rfl rfl, h.live, h.unprocessed, h.drained⟩
  · rw [if_neg hend]
    exact hrest h

theorem processPayload_provenance (ht : Tame env cb) (h : Looked base got p s)
    (hline : s.st.endedRemote = false → Held base got (s.rx.taken + 1) s)
    (hb : hasFlag p.h.type UDX_HEADER_DATA_OR_END = true → Heard s.log p.h.seq ⟨p.h.type, p.data⟩) :
    ∃ got', Provenance base got' (processPayload env cb p s) := by
  unfold processPayload
  split
  · next hseq =>
    split
    · next htake =>
      obtain ⟨htype, hshould⟩ := Bool.and_eq_true_iff.mp htake
      have hopen : s.st.endedRemote = false := by
        cases he : s.st.endedRemote
        · rfl
        · simp [Status.shouldRead, he] at hshould
      obtain ⟨htraced, hheld⟩ := processDataPacket_traced ht p.h.type p.data h.traced (hline hopen) hseq (hb htype)
      obtain ⟨hpath, hc, hproc, hdrain, -⟩ := processDataPacket_path ht h.carries h.live h.unprocessed h.drained
        hopen hseq htype
      obtain ⟨l, hl⟩ := hpath.grows
      generalize processDataPacket cb p.h.type p.h.seq p.data s = t at htraced hheld hc hproc hdrain hl ⊢
      refine ⟨receivePacket (placeOf p.h.seq s) ⟨p.h.type, p.data⟩ got, ?_⟩
      dsimp only
      split
      · next hdead => exact htraced.provenance hdead
      · next hdead =>
        have hlive : t.st.dead = false := Bool.eq_false_iff.mpr hdead
        exact processEndBits_provenance ht ⟨htraced, hheld hlive, hc, hlive, hproc, hdrain⟩ fun htype =>
          (hb htype).mono fun e he => hl ▸ List.mem_append_right _ he
    · exact ⟨got, processEndBits_provenance ht h hb⟩
  · exact ⟨got, processMessage_provenance ht h⟩

/-- A datagram that passed the firewall. -/
theorem processHeader_provenance (ht : Tame env cb) {h : Header} {d : List UInt8} {same : Bool} {pre : Core}
    (hs : AtRest s) (hlive : s.st.dead = false) (hev : .event (.recv d same) pre ∈ s.log)
    (hparse : parse d = some h) (hid : h.remoteId = pre.peer.localId) (hp : Provenance base got s) :
    ∃ got', Provenance base got' (processHeader env cb h d s) := by
  unfold processHeader
  split
  · next hr =>
    have hrelay : LoopMove env s (relaySeq h.seq s) := .relay h.seq s hr hlive hs.packet
    have hseq := hrelay.deaf
    refine ⟨got, ?_⟩
    unfold relayPacket
    dsimp only
    split
    · exact hp.deaf (hseq.trans (closeStream_path ht .connReset _ (.inr (.inr (by simp)))).deaf)
    · exact hp.deaf hseq
  split
  · exact ⟨got, hp.deaf (sendAck_path ht s).deaf⟩
  split
  · exact ⟨got, hp⟩
  · next data hdata =>
    have hset : Deaf s (setPacket (rxPacket h d data s) s) := (Deaf.refl s).still rfl rfl rfl rfl rfl
    have hpacket := hp.deaf hset
    refine processPayload_provenance (s := setPacket (rxPacket h d data s) s) ht
      ⟨hpacket.traced, hpacket.held hlive, ⟨rfl, rfl, rfl, rfl, hs.cursor, hs.unacking⟩, hlive, hs.processing,
        hs.draining⟩ (hpacket.line hlive) fun htype => ?_
    exact ⟨d, same, pre, hev, h, hparse, hid, rfl, rfl, htype, hdata⟩

theorem processPacket_provenance (ht : Tame env cb) {d : List UInt8} {same : Bool} {pre : Core} (hs : AtRest s)
    (hev : .event (.recv d same) pre ∈ s.log) (hid : pre.peer.localId = s.peer.localId)
    (hp : Provenance base got s) : ∃ got', Provenance base got' (processPacket env cb d same s) := by
  unfold processPacket
  split
  · exact ⟨got, hp⟩
  next h hparse =>
  split_ifs with hne hclosed hdead hask
  · exact ⟨got, hp⟩
  · have hmove : LoopMove env s _ := .timewait h.type s hclosed
    exact ⟨got, hp.deaf hmove.deaf⟩
  · exact ⟨got, hp⟩
  · have hcall := ht.invoke .firewall s
    have hnote : Keeps s (s.note (.callback .firewall)) := (Keeps.refl s).note (fun _ _ => by simp)
    have hkeep : Keeps s (s.invoke cb .firewall).asked := (hnote.trans hcall.keeps).withIo rfl
    have hdeaf : Deaf s (s.invoke cb .firewall).asked :=
      (((Deaf.refl s).note rfl rfl rfl).trans hcall.deaf).still rfl rfl rfl rfl rfl
    dsimp only
    generalize (s.invoke cb .firewall).asked = t at hkeep hdeaf ⊢
    split
    · exact ⟨got, hp.deaf hdeaf⟩
    · next hgo =>
      have hlive : t.st.dead = false := by
        cases hd : t.st.dead
        · rfl
        · simp [hd] at hgo
      exact processHeader_provenance ht (hs.keeps hkeep) hlive (hdeaf.mem_log hev) hparse
        ((not_not.mp hne).trans hid.symm) (hp.deaf hdeaf)
  · exact processHeader_provenance ht hs (Bool.eq_false_iff.mpr hdead) hev hparse
      ((not_not.mp hne).trans hid.symm) hp

end

/-! ### Runs -/

section

variable {env : Env} {cb : Hook} {s : Stream}

theorem fireTimer_deaf (ht : Tame env cb) (he : Event.quiet s .timer = false)
    (hev : .event .timer s.toCore ∈ s.log) : Deaf s (fireTimer env cb s) := by
  simp only [Event.quiet] at he
  unfold fireTimer
  split
  · exact .refl s
  next timer due htimer =>
  rw [htimer] at he
  cases timer with
  | rto =>
    simp only [Bool.or_eq_false_iff, decide_eq_false_iff_not] at he
    obtain ⟨hdue, hcount⟩ := he
    rw [if_neg hdue, runTimer]
    unfold udxRtoTimeout
    dsimp only
    rw [if_pos (by rw [(rtoStart_spec _).1]; exact Nat.lt_of_not_le hcount)]
    have hmove : LoopMove env s _ := .giveUp s due htimer (Nat.lt_of_not_le hcount) hdue hev
    exact hmove.deaf.trans (closeUnlessDestroying_path ht .timedOut (rtoStart (clearTimer s))).deaf
  | none => cases he
  | rackReo => cases he
  | tlp => cases he
  | zwp => cases he
  | keepalive => cases he

theorem copyDone_deaf (ht : Tame env cb) (i : ℕ) (s : Stream) : Deaf s (copyDone env cb i s) := by
  unfold copyDone
  split
  · exact .refl s
  next u hu =>
  have hmove : LoopMove env s (dropCopy i s) := .copyGone i s
  have hgone := hmove.deaf
  dsimp only
  split
  · next hk =>
    have hmove : LoopMove env s _ := .destroySent i s (by simp [hu, hk])
    exact hmove.deaf.trans (closeStart_path ht .none (dropCopy i s)).deaf
  · unfold Stream.invokeIf
    split
    · exact (hgone.note rfl rfl rfl).trans (ht.invoke .sent (dropCopy i s)).deaf
    · exact hgone
  · exact hgone

theorem relayClosed_deaf (ht : Tame env cb) (s : Stream) : Deaf s (relayClosed env cb s) := by
  unfold relayClosed
  split
  · next hr =>
    have hmove : LoopMove env s _ := .relayGone s hr
    exact hmove.deaf.trans (relayGone_path ht s).deaf
  · exact .refl s

/-- Nothing but a datagram brings in what the peer sent, whatever the callbacks
do. -/
theorem step_deaf (ht : Tame env cb) {e : Event} (hidle : s.ctl = s.ctl.idle)
    (he : ∀ d same, e ≠ .recv d same) : Deaf s (step env cb e s) := by
  by_cases hq : e.quiet s = true
  · have hstep : step env cb e s = step env Hook.quiet e s := by
      unfold step
      rw [runEvent_quiet ((beginEvent_quiet e e s).trans hq)]
    rw [hstep]
    exact (LoopMove.quiet e s hq hidle).deaf
  have hbegin : Deaf s (beginEvent e s) := ((Deaf.refl s).note rfl rfl rfl).still rfl rfl rfl rfl rfl
  have hrun : Deaf (beginEvent e s) (runEvent env cb e (beginEvent e s)) := by
    cases e with
    | call c => exact (call_path ht c _).deaf
    | recv d same => exact absurd rfl (he d same)
    | relayClosed => exact relayClosed_deaf ht _
    | copyDone i => exact copyDone_deaf ht i _
    | timer =>
      exact fireTimer_deaf ht ((beginEvent_quiet .timer .timer s).trans (Bool.eq_false_iff.mpr hq))
        (List.mem_cons_self ..)
    | pacing | prepare | uvSent | uvDone | copySent | tick | timewaitTimeout => exact absurd rfl hq
  exact (hbegin.trans hrun).still rfl rfl rfl rfl rfl

variable {cfg : Config}

theorem Reach.provenance (h : Reach env cfg s) : ∃ got, Provenance cfg.ack got s := by
  induction h with
  | init =>
    have hrx : (Udx.init env cfg).rx = { ack := cfg.ack } := rfl
    have hheld : Held cfg.ack (fun _ => none) 1 (Udx.init env cfg) :=
      ⟨[], trivial, by simp [Near], by rw [hrx]; rfl, fun _ _ => rfl⟩
    refine ⟨fun _ => none, ⟨fun _ _ h => absurd h (by simp), ?_, ?_, fun _ => ?_,
      fun hr => absurd hr Bool.false_ne_true, fun hr => absurd hr Bool.false_ne_true,
      ⟨cfg.seq, init_mailed env cfg ⟨0, Nat.zero_le _, (nth_zero _).symm⟩⟩⟩, fun _ => ?_, fun _ _ => ?_⟩
    · rw [hrx]
      exact (nth_zero _).symm
    · rw [hrx]
      exact fun i hi => absurd hi (Nat.not_lt_zero i)
    · rw [hrx]
      rfl
    · rw [hrx]
      exact hheld.mono (Nat.zero_le 1)
    · rw [hrx]
      exact hheld
  | @step s cb e hs hcb ih =>
    obtain ⟨got, hp⟩ := ih
    by_cases he : ∃ d same, e = .recv d same
    · obtain ⟨d, same, rfl⟩ := he
      have hbegin : Deaf s (beginEvent (.recv d same) s) :=
        ((Deaf.refl s).note rfl rfl rfl).still rfl rfl rfl rfl rfl
      obtain ⟨got', hp'⟩ := processPacket_provenance (s := beginEvent (.recv d same) s) hcb.tame
        (.of_idle hs.idle) (List.mem_cons_self ..) rfl (hp.deaf hbegin)
      exact ⟨got', hp'.deaf ((Deaf.refl _).still rfl rfl rfl rfl rfl)⟩
    · exact ⟨got, hp.deaf (step_deaf hcb.tame hs.idle fun d same heq => he ⟨d, same, heq⟩)⟩

/-- Where the data of a stream comes from, in every run: `on_read` gets the
payloads of received packets, one for each sequence number from the initial
ack on and in their order, and the SACK tree holds the maximal runs of those
received above them. A block is left in line only after EOF. -/
theorem Reach.reads_received (h : Reach env cfg s) :
    (∃ items : List OooBuf, items.length = s.rx.taken ∧
      (∀ i b, items[i]? = some b → Heard s.log (nth cfg.ack i) b) ∧
      (.dropped ∉ s.log → s.reads = items.filterMap OooBuf.payload)) ∧
    s.rx.ack = nth cfg.ack s.rx.taken ∧
    (s.st.dead = false → ∃ rs : List (Run OooBuf),
      Runs.Ordered (if s.st.endedRemote then s.rx.taken else s.rx.taken + 1) rs ∧
      s.rx.sackTree = rs.map (heldBlock cfg.ack) ∧
      ∀ i b, s.rx.taken ≤ i → Runs.get rs i = some b → Heard s.log (nth cfg.ack i) b) := by
  obtain ⟨got, hp⟩ := h.provenance
  have hheld : ∀ {lo : ℕ}, Held cfg.ack got lo s → ∃ rs : List (Run OooBuf), Runs.Ordered lo rs ∧
      s.rx.sackTree = rs.map (heldBlock cfg.ack) ∧
      ∀ i b, s.rx.taken ≤ i → Runs.get rs i = some b → Heard s.log (nth cfg.ack i) b := by
    rintro lo ⟨rs, hord, -, htree, hget⟩
    exact ⟨rs, hord, htree, fun i b hi hb => hp.traced.heard i b ((hget i hi).symm.trans hb)⟩
  refine ⟨?_, hp.traced.ack, fun hlive => ?_⟩
  · obtain ⟨items, hlen, hitems, hpay⟩ := hp.traced.items
    refine ⟨items, hlen, fun i b hb => ?_, fun hno => ?_⟩
    · have hi : i < s.rx.taken := hlen ▸ (List.getElem?_eq_some_iff.mp hb).1
      exact hp.traced.heard i b ((hitems i hi).trans hb)
    · rw [hp.traced.reads hno, hpay]
  · cases hended : s.st.endedRemote
    · exact hheld (hp.line hlive hended)
    · exact hheld (hp.held hlive)

end

/-- An `on_read` that stops reading. -/
def readOnce (env : Env) : Hook
  | .read _, s => call env Hook.quiet .readStop s
  | _, s => s

theorem readOnce_layered (env : Env) : Layered env (readOnce env) := by
  refine .reacts .quiet fun c s => ?_
  cases c with
  | read data => exact .single ⟨.readStop, rfl⟩
  | _ => exact .refl

/-- The second packet comes first; when the first one closes the gap, the
callback stops reading, and the second is taken and dropped. -/
def stoppedReader : Stream :=
  step .free (readOnce .free) (.recv (lateDatagram 0 7) true)
    (runEvents .free [.call .readStart, .recv (lateDatagram 1 8) true] (Udx.init .free eofConfig))

theorem Reach.reads_received_once : (∃ items : List OooBuf, items.length = stoppedReader.rx.taken ∧
    ∀ i b, items[i]? = some b → Heard stoppedReader.log (nth 0 i) b) ∧
    stoppedReader.rx.taken = 2 ∧ stoppedReader.reads = [[7]] := by
  have h : Reach .free eofConfig stoppedReader :=
    .step _ (.runEvents .init _) (readOnce_layered .free)
  obtain ⟨⟨items, hlen, hitems, -⟩, -⟩ := Reach.reads_received h
  exact ⟨⟨items, hlen, hitems⟩, by decide +kernel, by decide +kernel⟩

end Udx
