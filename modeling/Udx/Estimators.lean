/-
# Round trip estimators

`clamp_rtt` bounds a sample by the estimators themselves, and a sample just
below that bound nearly doubles them: after enough such samples the 32-bit sums
wrap, and the first sample of all is cut to 32 bits before it is clamped.
`Sampled` says for one acknowledgement that none of this happens. Which elapsed
times lead to it is told by the estimators over the integers, `rttOf`, which
are a function of the elapsed times alone.

Key definitions: `Sampled`, `Trip`, `rttOf`, `TripsFit`.
Key theorems: `sampled_iff`, `Reach.sampled_iff`, `TripsFit.of_short`.
-/
import Udx.Tuning

namespace Udx

open Serial

/-- `clamp_rtt` over the integers. -/
def clampExact (srtt rttvar elapsed : ℕ) : ℕ :=
  if srtt = 0 then min elapsed UDX_RTT_MAX_MS
  else if elapsed > srtt + 5 * rttvar ∧ elapsed > 5000 then min (srtt + 5 * rttvar) UDX_RTT_MAX_MS
  else elapsed

/-- The time from the sending of a packet to its acknowledgement. -/
def Packet.elapsed (p : Packet) (s : Stream) : ℕ := s.io.now - p.timeSent

/-- `delta` of `ack_packet`. -/
def rttDelta (rtt srtt : ℕ) : ℕ := if rtt < srtt then srtt - rtt else rtt - srtt

/-- No sum of one acknowledgement wraps, and no elapsed time is cut short. -/
structure Sampled (p : Packet) (s : Stream) : Prop where
  threshold : s.cc.srtt ≠ 0 → s.cc.srtt + 5 * s.cc.rttvar < 2 ^ 32
  sample : clampRtt (p.elapsed s) s = clampExact s.cc.srtt s.cc.rttvar (p.elapsed s)
  rttvar : p.retransmitted = false → s.cc.srtt ≠ 0 →
    3 * s.cc.rttvar + rttDelta (rttSample p s) s.cc.srtt < 2 ^ 32
  srtt : p.retransmitted = false → s.cc.srtt ≠ 0 → 7 * s.cc.srtt + rttSample p s < 2 ^ 32
  rto : p.retransmitted = false → (p.estimate s).srtt + 4 * (p.estimate s).rttvar < 2 ^ 32
  known : p.retransmitted = false → 1 ≤ (p.estimate s).srtt
  range : p.retransmitted = false → 1000 ≤ (p.estimate s).rto ∧ (p.estimate s).rto ≤ UDX_RTO_MAX_MS

/-! ### The estimators over the integers -/

/-- The round trip of a packet, from its last transmission to its
acknowledgement. -/
structure Trip where
  elapsed : ℕ
  retransmitted : Bool
  deriving DecidableEq, Repr

def Packet.trip (p : Packet) (s : Stream) : Trip := ⟨p.elapsed s, p.retransmitted⟩

/-- A smoothed round trip time, 0 before the first sample, and its variation. -/
structure Rtt where
  srtt : ℕ := 0
  rttvar : ℕ := 0
  deriving DecidableEq, Repr

/-- The sample for an elapsed time, at least 1. -/
def Rtt.sample (r : Rtt) (elapsed : ℕ) : ℕ := max 1 (clampExact r.srtt r.rttvar elapsed)

/-- A trip is a sample unless the packet was sent more than once. -/
def Rtt.next (r : Rtt) (t : Trip) : Rtt :=
  let rtt := r.sample t.elapsed
  if t.retransmitted then r
  else if r.srtt = 0 then ⟨rtt, rtt / 2⟩
  else ⟨(7 * r.srtt + rtt) / 8, (3 * r.rttvar + rttDelta rtt r.srtt) / 4⟩

/-- The estimators after some trips, the newest first. -/
def rttOf : List Trip → Rtt
  | [] => {}
  | t :: older => (rttOf older).next t

/-- Before the first sample an elapsed time fits 32 bits, or is cut to one that
is clamped anyway. Later the threshold of the estimators fits 32 bits, and the
trip leaves a round trip time below 2 ^ 29 and a timeout below 2 ^ 32. -/
def Rtt.Takes (r : Rtt) (t : Trip) : Prop :=
  if r.srtt = 0 then t.elapsed < 2 ^ 32 ∨ UDX_RTT_MAX_MS ≤ t.elapsed % 2 ^ 32
  else r.srtt + 5 * r.rttvar < 2 ^ 32 ∧ (r.next t).srtt < 2 ^ 29 ∧ (r.next t).srtt + 4 * (r.next t).rttvar < 2 ^ 32

instance (r : Rtt) (t : Trip) : Decidable (r.Takes t) :=
  inferInstanceAs (Decidable (if r.srtt = 0 then _ ∨ _ else _ ∧ _ ∧ _))

/-- Every trip is one that the estimators of the trips before it can take. -/
def TripsFit : List Trip → Prop
  | [] => True
  | t :: older => (rttOf older).Takes t ∧ TripsFit older

instance instDecidableTripsFit : (trips : List Trip) → Decidable (TripsFit trips)
  | [] => isTrue trivial
  | t :: older =>
    have := instDecidableTripsFit older
    inferInstanceAs (Decidable ((rttOf older).Takes t ∧ TripsFit older))

theorem Rtt.next_srtt_pos {r : Rtt} {t : Trip} (h : t.retransmitted = false) : 1 ≤ (r.next t).srtt := by
  unfold Rtt.next Rtt.sample
  dsimp only
  rw [if_neg (by simp [h])]
  split
  · exact Nat.le_max_left ..
  · dsimp only
    omega

/-- A sample is no longer than the elapsed time. -/
theorem Rtt.sample_le (r : Rtt) (e : ℕ) : r.sample e ≤ max 1 e := by
  unfold Rtt.sample clampExact
  split_ifs <;> omega

/-- Trips below 2 ^ 29 milliseconds (over six days) keep the estimators there. -/
theorem rttOf_short {trips : List Trip} (h : ∀ t ∈ trips, t.elapsed < 2 ^ 29) :
    (rttOf trips).srtt < 2 ^ 29 ∧ (rttOf trips).rttvar < 2 ^ 29 := by
  induction trips with
  | nil => exact ⟨Nat.two_pow_pos 29, Nat.two_pow_pos 29⟩
  | cons t older ih =>
    obtain ⟨hsrtt, hvar⟩ := ih fun x hx => h x (List.mem_cons_of_mem _ hx)
    have he := h t List.mem_cons_self
    have hle := (rttOf older).sample_le t.elapsed
    unfold rttOf Rtt.next rttDelta
    dsimp only
    split_ifs
    · exact ⟨hsrtt, hvar⟩
    · dsimp only
      omega
    · dsimp only
      omega
    · dsimp only
      omega

/-- No run of such trips wraps anything. -/
theorem TripsFit.of_short {trips : List Trip} (h : ∀ t ∈ trips, t.elapsed < 2 ^ 29) : TripsFit trips := by
  induction trips with
  | nil => trivial
  | cons t older ih =>
    have hold := fun x hx => h x (List.mem_cons_of_mem t hx)
    obtain ⟨hsrtt, hvar⟩ := rttOf_short hold
    obtain ⟨hsrtt', hvar'⟩ : ((rttOf older).next t).srtt < 2 ^ 29 ∧ ((rttOf older).next t).rttvar < 2 ^ 29 :=
      rttOf_short h
    have he := h t List.mem_cons_self
    refine ⟨?_, ih hold⟩
    unfold Rtt.Takes
    split
    · exact .inl (by omega)
    · exact ⟨by omega, hsrtt', by omega⟩

/-! ### One acknowledgement -/

theorem clampRtt_exact {srtt rttvar e : ℕ} {s : Stream} (hs : s.cc.srtt = srtt) (hv : s.cc.rttvar = rttvar)
    (hfirst : srtt = 0 → e < 2 ^ 32 ∨ UDX_RTT_MAX_MS ≤ e % 2 ^ 32)
    (hlater : srtt ≠ 0 → srtt + 5 * rttvar < 2 ^ 32) :
    clampRtt e s = clampExact srtt rttvar e := by
  unfold clampRtt clampExact add32
  rw [hs, hv]
  by_cases hz : srtt = 0
  · rw [if_pos hz, if_pos hz]
    have := hfirst hz
    omega
  · rw [if_neg hz, if_neg hz]
    dsimp only
    have hT := hlater hz
    rw [Nat.mod_eq_of_lt hT]
    split
    · rfl
    · exact Nat.mod_eq_of_lt (by omega)

/-- The estimators after a later sample whose sums do not wrap. -/
theorem estimate_later {p : Packet} {s : Stream} (hr : p.retransmitted = false) (hs : s.cc.srtt ≠ 0)
    (hvar : 3 * s.cc.rttvar + rttDelta (rttSample p s) s.cc.srtt < 2 ^ 32)
    (hsrtt : 7 * s.cc.srtt + rttSample p s < 2 ^ 32) :
    (p.estimate s).srtt = (7 * s.cc.srtt + rttSample p s) / 8 ∧
      (p.estimate s).rttvar = (3 * s.cc.rttvar + rttDelta (rttSample p s) s.cc.srtt) / 4 := by
  unfold Packet.estimate
  rw [if_neg (by simp [hr])]
  unfold updateRto updateSrtt add32
  rw [if_neg hs]
  unfold rttDelta at hvar ⊢
  exact ⟨congrArg (· / 8) (Nat.mod_eq_of_lt hsrtt), congrArg (· / 4) (Nat.mod_eq_of_lt hvar)⟩

theorem estimate_first {p : Packet} {s : Stream} (hr : p.retransmitted = false) (hs : s.cc.srtt = 0) :
    (p.estimate s).srtt = rttSample p s ∧ (p.estimate s).rttvar = rttSample p s / 2 := by
  unfold Packet.estimate
  rw [if_neg (by simp [hr])]
  unfold updateRto updateSrtt
  rw [if_pos hs]
  exact ⟨rfl, rfl⟩

/-- The timeout is always in its range. -/
theorem estimate_rto {p : Packet} {s : Stream} (hr : p.retransmitted = false) :
    1000 ≤ (p.estimate s).rto ∧ (p.estimate s).rto ≤ UDX_RTO_MAX_MS := by
  unfold Packet.estimate
  rw [if_neg (by simp [hr])]
  unfold updateRto UDX_RTO_MAX_MS
  dsimp only
  omega

theorem rttSample_eq {p : Packet} {s : Stream} (hr : p.retransmitted = false) :
    rttSample p s = if clampRtt (p.elapsed s) s = 0 then 1 else clampRtt (p.elapsed s) s := by
  unfold rttSample Packet.elapsed
  simp [hr]

/-- The estimators of the stream. -/
def Cc.rtt (cc : Cc) : Rtt := ⟨cc.srtt, cc.rttvar⟩

/-- The sample is that over the integers, where the clamp is exact. -/
theorem rttSample_exact {p : Packet} {s : Stream} (hr : p.retransmitted = false)
    (hclamp : clampRtt (p.elapsed s) s = clampExact s.cc.srtt s.cc.rttvar (p.elapsed s)) :
    rttSample p s = s.cc.rtt.sample (p.elapsed s) := by
  rw [rttSample_eq hr, hclamp]
  unfold Rtt.sample Cc.rtt
  dsimp only
  split <;> omega

/-- The estimators after a later sample. -/
theorem Rtt.next_later {r : Rtt} {t : Trip} (hr : t.retransmitted = false) (hs : r.srtt ≠ 0) :
    r.next t = ⟨(7 * r.srtt + r.sample t.elapsed) / 8,
      (3 * r.rttvar + rttDelta (r.sample t.elapsed) r.srtt) / 4⟩ := by
  unfold Rtt.next
  dsimp only
  rw [if_neg (by simp [hr]), if_neg hs]

/-- An exact acknowledgement leaves the estimators over the integers. -/
theorem Sampled.next {p : Packet} {s : Stream} (h : Sampled p s) :
    (p.estimate s).rtt = s.cc.rtt.next (p.trip s) := by
  cases hr : p.retransmitted with
  | true => exact (congrArg Cc.rtt (if_pos hr) : _).trans (if_pos hr).symm
  | false =>
    have hrtt := rttSample_exact hr h.sample
    by_cases hs : s.cc.srtt = 0
    · obtain ⟨hsrtt, hvar⟩ := estimate_first hr hs
      unfold Rtt.next
      dsimp only
      rw [if_neg (by simp [Packet.trip, hr]), if_pos (show s.cc.rtt.srtt = 0 from hs)]
      unfold Cc.rtt at hrtt ⊢
      rw [hsrtt, hvar, hrtt]
      rfl
    · obtain ⟨hsrtt, hvar⟩ := estimate_later hr hs (h.rttvar hr hs) (h.srtt hr hs)
      rw [Rtt.next_later hr hs]
      unfold Cc.rtt at hrtt ⊢
      rw [hsrtt, hvar, hrtt]
      rfl

/-- What is exact can be taken. -/
theorem Sampled.takes {p : Packet} {s : Stream} (h : Sampled p s) (hlow : s.cc.srtt < 2 ^ 29) :
    s.cc.rtt.Takes (p.trip s) := by
  have hnext := h.next
  unfold Rtt.Takes
  split
  · next hz =>
    have hsample := h.sample
    unfold clampRtt clampExact at hsample
    rw [show s.cc.srtt = 0 from hz, if_pos rfl, if_pos rfl] at hsample
    show p.elapsed s < _ ∨ _ ≤ p.elapsed s % _
    unfold UDX_RTT_MAX_MS at hsample ⊢
    omega
  · next hz =>
    have hT : s.cc.srtt + 5 * s.cc.rttvar < 2 ^ 32 := h.threshold hz
    rw [← hnext]
    cases hr : p.retransmitted with
    | true =>
      rw [show p.estimate s = s.cc from if_pos hr]
      exact ⟨hT, hlow, show s.cc.srtt + 4 * s.cc.rttvar < 2 ^ 32 by omega⟩
    | false =>
      have hsum := h.srtt hr hz
      obtain ⟨hsrtt, -⟩ := estimate_later hr hz (h.rttvar hr hz) hsum
      exact ⟨hT, show (p.estimate s).srtt < 2 ^ 29 by omega, h.rto hr⟩

/-- The sums of a sample that can be taken. -/
theorem later_sums {s v r : ℕ} (hs : 1 ≤ s) (hT : s + 5 * v < 2 ^ 32) (hsrtt : (7 * s + r) / 8 < 2 ^ 29)
    (hrto : (7 * s + r) / 8 + 4 * ((3 * v + rttDelta r s) / 4) < 2 ^ 32) :
    7 * s + r < 2 ^ 32 ∧ 3 * v + rttDelta r s < 2 ^ 32 := by
  unfold rttDelta at hrto ⊢
  split at hrto <;> split <;> omega

/-- What can be taken is exact. -/
theorem Rtt.Takes.sampled {p : Packet} {s : Stream} (h : s.cc.rtt.Takes (p.trip s)) : Sampled p s := by
  unfold Rtt.Takes at h
  by_cases hs : s.cc.srtt = 0
  · rw [if_pos (show s.cc.rtt.srtt = 0 from hs)] at h
    have hclamp := clampRtt_exact (e := p.elapsed s) rfl (rfl : s.cc.rttvar = _) (fun _ => h) fun hne =>
      absurd hs hne
    have hsample : p.retransmitted = false → 1 ≤ rttSample p s ∧ rttSample p s ≤ 30000 := by
      intro hr
      rw [rttSample_eq hr, hclamp]
      unfold clampExact UDX_RTT_MAX_MS
      rw [if_pos hs]
      split <;> omega
    refine ⟨fun hne => absurd hs hne, hclamp, fun _ hne => absurd hs hne, fun _ hne => absurd hs hne,
      fun hr => ?_, fun hr => ?_, estimate_rto⟩
    · obtain ⟨hsrtt, hvar⟩ := estimate_first hr hs
      have hle := (hsample hr).2
      rw [hsrtt, hvar]
      omega
    · rw [(estimate_first hr hs).1]
      exact (hsample hr).1
  · rw [if_neg (show ¬ s.cc.rtt.srtt = 0 from hs)] at h
    obtain ⟨hT, hlow, hrto⟩ := h
    have hclamp := clampRtt_exact (e := p.elapsed s) rfl (rfl : s.cc.rttvar = _) (fun hz => absurd hz hs)
      fun _ => hT
    have hsums : p.retransmitted = false → 7 * s.cc.srtt + rttSample p s < 2 ^ 32 ∧
        3 * s.cc.rttvar + rttDelta (rttSample p s) s.cc.srtt < 2 ^ 32 := by
      intro hr
      have hnext := Rtt.next_later (r := s.cc.rtt) (t := p.trip s) hr hs
      rw [show s.cc.rtt.sample (p.trip s).elapsed = rttSample p s from (rttSample_exact hr hclamp).symm] at hnext
      rw [hnext] at hlow hrto
      exact later_sums (Nat.pos_of_ne_zero hs) hT hlow hrto
    have hest : p.retransmitted = false → (p.estimate s).rtt = s.cc.rtt.next (p.trip s) := by
      intro hr
      obtain ⟨hsum, hvar⟩ := hsums hr
      obtain ⟨hsrtt, hrttvar⟩ := estimate_later hr hs hvar hsum
      rw [Rtt.next_later hr hs]
      have hrtt := rttSample_exact hr hclamp
      unfold Cc.rtt at hrtt ⊢
      rw [hsrtt, hrttvar, hrtt]
      rfl
    refine ⟨fun _ => hT, hclamp, fun hr _ => (hsums hr).2, fun hr _ => (hsums hr).1, fun hr => ?_, fun hr => ?_,
      estimate_rto⟩
    · rw [← hest hr] at hrto
      exact hrto
    · have hpos := Rtt.next_srtt_pos (r := s.cc.rtt) (t := p.trip s) hr
      rw [← hest hr] at hpos
      exact hpos

/-- An acknowledgement that can be taken leaves the estimator below 2 ^ 29. -/
theorem Rtt.Takes.low {r : Rtt} {t : Trip} (h : r.Takes t) (hlow : r.srtt < 2 ^ 29) : (r.next t).srtt < 2 ^ 29 := by
  unfold Rtt.Takes at h
  split at h
  · next hz =>
    unfold Rtt.next Rtt.sample clampExact
    dsimp only
    rw [if_pos hz, if_pos hz]
    unfold UDX_RTT_MAX_MS
    split
    · exact hlow
    · dsimp only
      omega
  · exact h.2.1

/-! ### Runs -/

/-- The acknowledgements of a log, each with the state it found. -/
def Acknowledged (log : List Entry) (P : Packet → Stream → Prop) : Prop :=
  ∀ k pre, .reached (.ackTake k) pre ∈ log → P (pre.tx.pkts k) ⟨pre, []⟩

/-- The trips of a log, the newest first. -/
def trips (log : List Entry) : List Trip :=
  log.filterMap fun e => match e with
    | .reached (.ackTake k) pre => some ((pre.tx.pkts k).trip ⟨pre, []⟩)
    | _ => none

/-- New entries without an acknowledgement. -/
theorem trips_append {l log : List Entry} (hl : ∀ k pre, .reached (.ackTake k) pre ∉ l) :
    trips (l ++ log) = trips log := by
  unfold trips
  rw [List.filterMap_append, List.filterMap_eq_nil_iff.mpr, List.nil_append]
  intro e he
  split
  · next k pre => exact absurd he (hl k pre)
  · rfl

theorem acknowledged_append {l log : List Entry} {P : Packet → Stream → Prop}
    (hl : ∀ k pre, .reached (.ackTake k) pre ∉ l) : Acknowledged (l ++ log) P ↔ Acknowledged log P :=
  ⟨fun h k pre hm => h k pre (List.mem_append_right l hm),
    fun h k pre hm => h k pre ((List.mem_append.mp hm).resolve_left (hl k pre))⟩

theorem acknowledged_cons {k : ℕ} {pre : Core} {log : List Entry} {P : Packet → Stream → Prop} :
    Acknowledged (.reached (.ackTake k) pre :: log) P ↔
      P (pre.tx.pkts k) ⟨pre, []⟩ ∧ Acknowledged log P := by
  refine ⟨fun h => ⟨h k pre List.mem_cons_self, fun j pre' hm => h j pre' (List.mem_cons_of_mem _ hm)⟩,
    fun ⟨hnew, hold⟩ j pre' hm => ?_⟩
  rcases List.mem_cons.mp hm with he | hm
  · cases he
    exact hnew
  · exact hold j pre' hm

def Tuned.rtt (t : Tuned) : Rtt := ⟨t.srtt, t.rttvar⟩

/-- A turn takes an acknowledgement, or leaves the estimators alone. -/
theorem Turn.takes {env : Env} {s t : Stream} (h : Turn env s t) :
    (∃ seq k sack, t = takeAcked seq k sack s) ∨
      t.cc.rtt = s.cc.rtt ∧ ∃ l, t.log = l ++ s.log ∧ ∀ k pre, .reached (.ackTake k) pre ∉ l := by
  have hsends : ∀ {x y : Stream}, Sends x y →
      ∃ l, y.log = l ++ x.log ∧ ∀ k pre, .reached (.ackTake k) pre ∉ l := fun hxy => by
    obtain ⟨l, hl, hsending⟩ := hxy.log
    exact ⟨l, hl, fun k pre hm => absurd (hsending _ hm) Bool.false_ne_true⟩
  have hrefill : ∀ x : Stream, (updatePacingTime x).cc.rtt = x.cc.rtt := by
    intro x
    by_cases hdue : x.io.now > x.cc.tbLastRefillMs
    · exact congrArg Tuned.rtt (updatePacingTime_due hdue)
    · rw [updatePacingTime_early hdue]
  cases h with
  | rest hr =>
    obtain ⟨l, hl, hnot⟩ := hr.log
    exact .inr ⟨congrArg Tuned.rtt hr.tuned, l, hl, fun k pre hm => Bool.noConfusion (hnot _ hm)⟩
  | tick ms => exact .inr ⟨rfl, [], rfl, fun _ _ => List.not_mem_nil⟩
  | mayCheck => exact .inr ⟨congrArg Cc.rtt (Stream.check_cc ..), hsends ((Sends.refl s).check _ _)⟩
  | refill => exact .inr ⟨hrefill s, hsends (Sends.refl s).updatePacingTime⟩
  | spend size =>
    refine .inr ⟨?_, hsends ((Sends.refl s).spendTokens size)⟩
    unfold spendTokens
    dsimp only
    split <;> rfl
  | firePacing =>
    have hlog := hsends (Sends.refl (clearPacing s)).updatePacingTime
    exact .inr ⟨hrefill (clearPacing s), hlog⟩
  | release =>
    obtain ⟨hcc, -, -, hlog⟩ := releaseHandles_still s
    exact .inr ⟨congrArg Cc.rtt hcc, [], hlog, fun _ _ => List.not_mem_nil⟩
  | take seq k sack => exact .inl ⟨seq, k, sack, rfl⟩
  | raise => exact .inr ⟨rfl, [], rfl, fun _ _ => List.not_mem_nil⟩
  | unconserve => exact .inr ⟨rfl, [], rfl, fun _ _ => List.not_mem_nil⟩
  | setCwnd rs acked =>
    obtain ⟨c, p, u, ht⟩ := bbrSetCwnd_tuned env rs acked s
    exact .inr ⟨congrArg Tuned.rtt ht, hsends ((Sends.refl s).bbrSetCwnd env rs acked)⟩
  | rto => exact .inr ⟨rfl, [], rfl, fun _ _ => List.not_mem_nil⟩

/-- All acknowledgements so far were exact just if their trips fit, and then the
estimators are those over the integers. -/
structure Estimated (s : Stream) : Prop where
  iff : Acknowledged s.log Sampled ↔ TripsFit (trips s.log)
  rtt : TripsFit (trips s.log) → s.cc.rtt = rttOf (trips s.log) ∧ s.cc.srtt < 2 ^ 29

theorem Turn.estimated {env : Env} {s t : Stream} (h : Turn env s t) (hs : Estimated s) : Estimated t := by
  rcases h.takes with ⟨seq, k, sack, rfl⟩ | ⟨hrtt, l, hl, hnone⟩
  · have hlog := takeAcked_log seq k sack s
    have htuned : (takeAcked seq k sack s).cc.rtt = ((s.tx.pkts k).estimate s).rtt :=
      congrArg Tuned.rtt (takeAcked_tuned seq k sack s)
    have hsame : Sampled (s.tx.pkts k) ⟨s.toCore, []⟩ ↔ Sampled (s.tx.pkts k) s :=
      ⟨fun h => ⟨h.1, h.2, h.3, h.4, h.5, h.6, h.7⟩, fun h => ⟨h.1, h.2, h.3, h.4, h.5, h.6, h.7⟩⟩
    have htrips : trips (.reached (.ackTake k) s.toCore :: s.log) = (s.tx.pkts k).trip s :: trips s.log := rfl
    rw [← hlog] at htrips
    -- where the trips so far fit, the new one decides
    have hnew : TripsFit (trips s.log) →
        (Sampled (s.tx.pkts k) s ↔ (rttOf (trips s.log)).Takes ((s.tx.pkts k).trip s)) := by
      intro hold
      obtain ⟨hrtt, hlow⟩ := hs.rtt hold
      rw [← hrtt]
      exact ⟨fun h => h.takes hlow, Rtt.Takes.sampled⟩
    refine ⟨?_, fun hfit => ?_⟩
    · rw [htrips, hlog, acknowledged_cons, hs.iff, hsame]
      exact ⟨fun ⟨h, hold⟩ => ⟨(hnew hold).mp h, hold⟩, fun ⟨h, hold⟩ => ⟨(hnew hold).mpr h, hold⟩⟩
    · rw [htrips] at hfit
      obtain ⟨htakes, hold⟩ := hfit
      obtain ⟨hrtt, hlow⟩ := hs.rtt hold
      have hexact := ((hnew hold).mpr htakes).next
      rw [← hrtt] at htakes
      rw [htrips, htuned, hexact, ← hexact, show rttOf ((s.tx.pkts k).trip s :: trips s.log) =
        (rttOf (trips s.log)).next ((s.tx.pkts k).trip s) from rfl, ← hrtt]
      refine ⟨hexact, ?_⟩
      show (takeAcked seq k sack s).cc.rtt.srtt < 2 ^ 29
      rw [htuned, hexact]
      exact htakes.low hlow
  · have htrips : trips t.log = trips s.log := hl ▸ trips_append hnone
    have hacked : Acknowledged t.log Sampled ↔ Acknowledged s.log Sampled := hl ▸ acknowledged_append hnone
    refine ⟨?_, fun hfit => ?_⟩
    · rw [hacked, htrips]
      exact hs.iff
    · rw [htrips] at hfit ⊢
      obtain ⟨hold, hlow⟩ := hs.rtt hfit
      exact ⟨hrtt.trans hold, Nat.lt_of_le_of_lt (Nat.le_of_eq (congrArg Rtt.srtt hrtt :)) hlow⟩

theorem Reach.estimated {env : Env} {cfg : Config} {s : Stream} (h : Reach env cfg s) : Estimated s := by
  have hinit : Estimated (Udx.init env cfg) :=
    ⟨⟨fun _ => trivial, fun _ k pre hm => absurd hm List.not_mem_nil⟩, fun _ => ⟨rfl, Nat.two_pow_pos 29⟩⟩
  have hturns := h.turns
  clear h
  induction hturns with
  | refl => exact hinit
  | tail _ hturn ih => exact hturn.estimated ih

/-- In every run, the arithmetic of all acknowledgements is exact if and only
if the elapsed times are such that the estimators over the integers can take
them one after the other. -/
theorem Reach.sampled_iff {env : Env} {cfg : Config} {s : Stream} (h : Reach env cfg s) :
    Acknowledged s.log Sampled ↔ TripsFit (trips s.log) := h.estimated.iff

/-- It is in every run in which no packet takes 2 ^ 29 milliseconds. -/
theorem Reach.sampled_of_short {env : Env} {cfg : Config} {s : Stream} (h : Reach env cfg s)
    (hshort : ∀ t ∈ trips s.log, t.elapsed < 2 ^ 29) : Acknowledged s.log Sampled :=
  h.estimated.iff.mpr (.of_short hshort)

/-! ### Runs with slow acknowledgements -/

def sampleConfig : Config := { localId := 1, seq := 0, ack := 0, now := 0 }

/-- Packets that are sent and acknowledged one after the other, with the time
each one takes. -/
def sampleEvents (times : List ℕ) : List Event :=
  .call (.connect ⟨0, .inet⟩ 2 ⟨.inet, 1, [1, 2, 3, 4]⟩) :: times.zipIdx.flatMap fun (ms, i) =>
    [.call (.write [[7]] false), .prepare, .tick ms, .recv
      ({ type := 0, dataOffset := 0, remoteId := 1, rwnd := 65535, seq := 0, ack := BitVec.ofNat 32 (i + 1) } :
        Header).encode true]

/-- Eight packets whose trips are each as long as they may be without being
clamped, one that is, and one that is sent again. -/
def slowStream : Stream :=
  runEvents .free (sampleEvents [30000, 105000, 189375, 358125, 695625, 1370625, 2720625, 5420625, 20000000] ++
    [.call (.write [[7]] false), .prepare, .tick 100000000, .timer, .tick 7,
      .recv ({ type := 0, dataOffset := 0, remoteId := 1, rwnd := 65535, seq := 0, ack := 10 } : Header).encode true])
    (Udx.init .free sampleConfig)
theorem Reach.sampled_slow : trips slowStream.log =
      [⟨7, true⟩, ⟨20000000, false⟩, ⟨5420625, false⟩, ⟨2720625, false⟩, ⟨1370625, false⟩, ⟨695625, false⟩,
        ⟨358125, false⟩, ⟨189375, false⟩, ⟨105000, false⟩, ⟨30000, false⟩] ∧
    slowStream.cc.rtt = ⟨1071796, 1737656⟩ ∧ Acknowledged slowStream.log Sampled := by
  have h : Reach .free sampleConfig slowStream := .runEvents .init _
  refine ⟨by decide +kernel, by decide +kernel, ?_⟩
  rw [h.sampled_iff]
  decide +kernel

/-- The first sample comes after 2 ^ 32 + 5 milliseconds, and counts as 5. -/
def cutStream : Stream :=
  runEvents .free (sampleEvents [2 ^ 32 + 5]) (Udx.init .free sampleConfig)

/-- Trips that double `rttvar` until the sums wrap. -/
def doubledStream : Stream :=
  runEvents .free (sampleEvents [30000, 105000, 189375, 358125, 695625, 1370625, 2720625, 5420625, 10820625, 21620625,
    43220625, 86420625, 172820625, 345620625, 691220625, 1382420625, 2764820625]) (Udx.init .free sampleConfig)
/-- A first time that is cut short, and sums that wrap. -/
theorem Reach.sampled_wrapped :
    (Reach .free sampleConfig cutStream ∧ cutStream.cc.srtt = 5 ∧ ¬ Acknowledged cutStream.log Sampled) ∧
      Reach .free sampleConfig doubledStream ∧ ¬ Acknowledged doubledStream.log Sampled := by
  have hcut : Reach .free sampleConfig cutStream := .runEvents .init _
  have hdoubled : Reach .free sampleConfig doubledStream := .runEvents .init _
  refine ⟨⟨hcut, by decide +kernel, ?_⟩, hdoubled, ?_⟩
  · rw [hcut.estimated.iff]
    decide +kernel
  · rw [hdoubled.estimated.iff]
    decide +kernel

end Udx
