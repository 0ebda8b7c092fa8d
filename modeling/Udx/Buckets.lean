/-
# The token bucket

A refill stores a 64-bit product in a 32-bit bucket. As long as the products
fit, an empty bucket has its refill timer running, and the timer finds the
bucket a millisecond later; a product that is a multiple of `2 ^ 32` leaves the
bucket empty with no timer.

Key definitions: `RefillFits`, `LeavesTokens`, `Stocked`.
Key theorems: `leavesTokens_iff`, `Turns.stock`, `Reach.stocked`.
-/
import Udx.Tuning

namespace Udx

/-- The tokens of `ms` milliseconds fit the bucket, or fill it exactly. -/
def RefillFits (ms rate : ℕ) : Prop :=
  ms * rate < 2 ^ 32 ∨ ms * rate % 2 ^ 32 = 2 ^ 32 - 1

theorem refillFits_iff {ms rate : ℕ} :
    min (ms * rate) (2 ^ 32 - 1) ≤ ms * rate % 2 ^ 32 ↔ RefillFits ms rate := by
  unfold RefillFits
  omega

theorem RefillFits.pos {ms rate : ℕ} (h : RefillFits ms rate) (hms : 0 < ms) (hrate : 0 < rate) :
    0 < ms * rate % 2 ^ 32 := by
  have hprod : 0 < ms * rate := Nat.mul_pos hms hrate
  rcases h with h | h
  · rwa [Nat.mod_eq_of_lt h]
  · omega

theorem updatePacingTime_log {s : Stream} (h : s.io.now > s.cc.tbLastRefillMs) :
    ∃ l, (updatePacingTime s).log = l ++ s.log ∧
      .refill (s.io.now - s.cc.tbLastRefillMs) s.cc.pacingBytesPerMs ∈ l := by
  unfold updatePacingTime
  rw [if_pos h]
  unfold Stream.check
  split
  · exact ⟨[_], rfl, List.mem_singleton.mpr rfl⟩
  · exact ⟨[_, _], rfl, List.mem_cons_self⟩

/-- What an empty bucket waits for. -/
structure Stocked (s : Stream) : Prop where
  past : s.cc.tbLastRefillMs ≤ s.io.now
  waits : s.st.closed = false → s.cc.tbAvailable = 0 →
    ∃ due, s.tm.refillPacingTimer = some due ∧ s.cc.tbLastRefillMs < due

/-- All refills of the log fit, and none was made at rate 0. -/
def RefillsFit (log : List Entry) : Prop := ∀ ms rate, .refill ms rate ∈ log → 0 < rate ∧ RefillFits ms rate

theorem RefillsFit.of_append {l log : List Entry} (h : RefillsFit (l ++ log)) : RefillsFit log :=
  fun ms rate hm => h ms rate (List.mem_append_right l hm)

/-- A step that leaves the bucket alone. -/
theorem Stocked.same {s t : Stream} (h : Stocked s) (hb : t.cc.tbAvailable = s.cc.tbAvailable)
    (hl : t.cc.tbLastRefillMs = s.cc.tbLastRefillMs) (ht : t.tm.refillPacingTimer = s.tm.refillPacingTimer)
    (hn : s.io.now ≤ t.io.now) (hc : s.st.closed = true → t.st.closed = true) : Stocked t := by
  refine ⟨hl ▸ Nat.le_trans h.past hn, fun hopen he => ?_⟩
  rw [hl, ht]
  refine h.waits ?_ (hb ▸ he)
  cases hs : s.st.closed with
  | false => rfl
  | true => rw [hc hs] at hopen; cases hopen

/-- After a refill that is due the bucket is not empty. -/
theorem Stocked.refilled {s : Stream} (hdue : s.io.now > s.cc.tbLastRefillMs)
    (hfit : RefillsFit (updatePacingTime s).log) : Stocked (updatePacingTime s) := by
  have htuned := updatePacingTime_due hdue
  have hlast : (updatePacingTime s).cc.tbLastRefillMs = s.io.now := congrArg Tuned.tbLastRefillMs htuned
  have hnow : (updatePacingTime s).io.now = s.io.now := congrArg Tuned.now htuned
  have hbucket : (updatePacingTime s).cc.tbAvailable =
      (s.io.now - s.cc.tbLastRefillMs) * s.cc.pacingBytesPerMs % 2 ^ 32 := congrArg Tuned.tbAvailable htuned
  obtain ⟨l, hl, hmem⟩ := updatePacingTime_log hdue
  obtain ⟨hrate, hfits⟩ := hfit _ _ (hl ▸ List.mem_append_left s.log hmem)
  refine ⟨hlast ▸ hnow ▸ Nat.le_refl _, fun _ he => ?_⟩
  have := hfits.pos (Nat.sub_pos_of_lt hdue) hrate
  omega

theorem Turn.log_grows {env : Env} {s t : Stream} (h : Turn env s t) : ∃ l, t.log = l ++ s.log := by
  have hsends : ∀ {x y : Stream}, Sends x y → ∃ l, y.log = l ++ x.log := fun hxy => by
    obtain ⟨l, hl, -⟩ := hxy.log
    exact ⟨l, hl⟩
  cases h with
  | rest hr =>
    obtain ⟨l, hl, -⟩ := hr.log
    exact ⟨l, hl⟩
  | tick ms => exact ⟨[], rfl⟩
  | mayCheck => exact hsends ((Sends.refl s).check _ _)
  | refill => exact hsends (Sends.refl s).updatePacingTime
  | spend size => exact hsends ((Sends.refl s).spendTokens size)
  | firePacing =>
    have hgrow := hsends (Sends.refl (clearPacing s)).updatePacingTime
    exact hgrow
  | release => exact ⟨[], (releaseHandles_still s).2.2.2⟩
  | take seq k sack => exact ⟨[_], takeAcked_log seq k sack s⟩
  | raise => exact ⟨[], rfl⟩
  | unconserve => exact ⟨[], rfl⟩
  | setCwnd rs acked => exact hsends ((Sends.refl s).bbrSetCwnd env rs acked)
  | rto => exact ⟨[], rfl⟩

theorem bbrSetCwnd_closed (env : Env) (rs : RateSample) (acked : ℕ) (s : Stream) :
    (bbrSetCwnd env rs acked s).st = s.st := ((Sends.refl s).bbrSetCwnd env rs acked).st

theorem Turn.stock {env : Env} {s t : Stream} (h : Turn env s t) (hfit : RefillsFit t.log)
    (hs : Stocked s) : Stocked t := by
  cases h with
  | rest hr =>
    have ht := hr.tuned
    exact hs.same (congrArg Tuned.tbAvailable ht) (congrArg Tuned.tbLastRefillMs ht)
      (congrArg Tuned.refillPacingTimer ht) (Nat.le_of_eq (congrArg Tuned.now ht).symm) hr.closed
  | tick ms => exact hs.same rfl rfl rfl (Nat.le_add_right ..) id
  | mayCheck =>
    have hcore := Stream.check_core .cwndPositive (s.cc.cwnd > 0) s
    generalize s.check .cwndPositive (s.cc.cwnd > 0) = x at hcore ⊢
    obtain ⟨core, log⟩ := x
    subst hcore
    exact hs.same rfl rfl rfl (Nat.le_refl _) id
  | refill =>
    by_cases hdue : s.io.now > s.cc.tbLastRefillMs
    · exact Stocked.refilled hdue hfit
    · rw [updatePacingTime_early hdue]
      exact hs
  | spend size =>
    unfold spendTokens
    dsimp only
    split
    · exact ⟨hs.past, fun _ _ => ⟨_, rfl, Nat.lt_succ_of_le hs.past⟩⟩
    · next hne => exact ⟨hs.past, fun _ he => absurd he hne⟩
  | firePacing due _ ht hdue =>
    by_cases hlate : s.io.now > s.cc.tbLastRefillMs
    · exact Stocked.refilled (s := clearPacing s) hlate hfit
    · have hearly : updatePacingTime (clearPacing s) = clearPacing s := updatePacingTime_early hlate
      rw [hearly]
      refine ⟨hs.past, fun hopen he => ?_⟩
      -- the timer that fired is later than the last refill
      obtain ⟨due', ht', hlt⟩ := hs.waits hopen he
      rw [ht] at ht'
      cases ht'
      omega
  | release _ hclosed =>
    obtain ⟨hcc, hio, hst, -⟩ := releaseHandles_still s
    refine ⟨?_, fun hopen => ?_⟩
    · rw [hcc, hio]
      exact hs.past
    · rw [hst, hclosed] at hopen
      cases hopen
  | take seq k sack =>
    have ht := takeAcked_tuned seq k sack s
    exact hs.same (congrArg Tuned.tbAvailable ht) (congrArg Tuned.tbLastRefillMs ht)
      (congrArg Tuned.refillPacingTimer ht) (Nat.le_of_eq (congrArg Tuned.now ht).symm)
      fun hc => (congrArg Status.closed (takeAcked_st seq k sack s)).trans hc
  | raise c _ hc => exact hs.same rfl rfl rfl (Nat.le_refl _) id
  | unconserve f => exact hs.same rfl rfl rfl (Nat.le_refl _) id
  | setCwnd rs acked =>
    obtain ⟨c, p, u, ht⟩ := bbrSetCwnd_tuned env rs acked s
    exact hs.same (congrArg Tuned.tbAvailable ht) (congrArg Tuned.tbLastRefillMs ht)
      (congrArg Tuned.refillPacingTimer ht) (Nat.le_of_eq (congrArg Tuned.now ht).symm)
      fun hc => (congrArg Status.closed (bbrSetCwnd_closed env rs acked s)).trans hc
  | rto n => exact hs.same rfl rfl rfl (Nat.le_refl _) id

/-- In a run whose refills fit, an empty bucket of an open stream has its timer. -/
theorem Turns.stock {env : Env} {s t : Stream} (h : Turns env s t) (hfit : RefillsFit t.log)
    (hs : Stocked s) : Stocked t := by
  induction h with
  | refl => exact hs
  | tail _ hturn ih =>
    obtain ⟨l, hl⟩ := hturn.log_grows
    exact hturn.stock hfit (ih (RefillsFit.of_append (hl ▸ hfit)))

/-! ### The claim about the bucket -/

/-- `update_pacing_time`, `ms` after the last refill and at `rate`, leaves the
tokens of that time or as many as there can be. -/
def LeavesTokens (ms rate : ℕ) : Prop :=
  ∀ s : Stream, s.io.now > s.cc.tbLastRefillMs → s.io.now - s.cc.tbLastRefillMs = ms →
    s.cc.pacingBytesPerMs = rate → min (ms * rate) (2 ^ 32 - 1) ≤ (updatePacingTime s).cc.tbAvailable

theorem leavesTokens_iff {ms rate : ℕ} : LeavesTokens ms rate ↔ RefillFits ms rate := by
  rw [← refillFits_iff]
  constructor
  · intro h
    by_cases hms : ms = 0
    · subst hms
      simp
    · let s : Stream := { cc := { pacingBytesPerMs := rate }, io := { now := ms } }
      have hdue : s.io.now > s.cc.tbLastRefillMs := Nat.pos_of_ne_zero hms
      have hleft := h s hdue rfl rfl
      rwa [show (updatePacingTime s).cc.tbAvailable = ms * rate % 2 ^ 32 from
        congrArg Tuned.tbAvailable (updatePacingTime_due hdue)] at hleft
  · rintro h s hdue rfl rfl
    rw [show (updatePacingTime s).cc.tbAvailable = _ from
      congrArg Tuned.tbAvailable (updatePacingTime_due hdue)]
    exact h

/-- The refill was made at a rate of at least 1. -/
def Entry.paced : Entry → Bool
  | .refill _ rate => decide (0 < rate)
  | _ => true

/-- A run on an open stream at rates of at least 1: its refills leave what they
should, and an empty bucket has its timer, if and only if they fit the bucket. -/
theorem Reach.stocked {env : Env} {cfg : Config} {s : Stream} (h : Reach env cfg s)
    (hpaced : ∀ e ∈ s.log, e.paced = true) (hopen : s.st.closed = false) :
    ((∀ ms rate, .refill ms rate ∈ s.log → LeavesTokens ms rate) ∧
        (s.cc.tbAvailable = 0 → s.tm.refillPacingTimer.isSome = true)) ↔
      ∀ ms rate, .refill ms rate ∈ s.log → RefillFits ms rate := by
  constructor
  · rintro ⟨hleft, -⟩ ms rate hm
    exact leavesTokens_iff.mp (hleft ms rate hm)
  · intro hfit
    refine ⟨fun ms rate hm => leavesTokens_iff.mpr (hfit ms rate hm), fun he => ?_⟩
    have hinit : Stocked (Udx.init env cfg) := ⟨Nat.le_refl _, nofun⟩
    have hall : RefillsFit s.log := fun ms rate hm => ⟨of_decide_eq_true (hpaced _ hm), hfit ms rate hm⟩
    obtain ⟨due, hdue, -⟩ := (h.turns.stock hall hinit).waits hopen he
    rw [hdue]
    rfl

def bucketConfig : Config := { localId := 1, seq := 0, ack := 0, now := 1 }

/-- All bandwidths are 2 ^ 16 bytes a millisecond. -/
def Env.paced : Env := { Env.free with bbr := fun _ _ => 2 ^ 16 }

/-- A stream writes a byte, `ms` milliseconds after its start. -/
def idleEvents (ms : ℕ) : List Event :=
  [.call (.connect ⟨0, .inet⟩ 2 ⟨.inet, 1, [1, 2, 3, 4]⟩), .tick ms, .call (.write [[7]] false), .prepare]

/-- A second later the rate is high, and a byte is sent. -/
def secondRefill : Stream := runEvents .paced (idleEvents 1000) (Udx.init .paced bucketConfig)

theorem Reach.stocked_second : secondRefill.log.any (· matches .refill 1000 65536) = true ∧
    (∀ ms rate, .refill ms rate ∈ secondRefill.log → LeavesTokens ms rate) ∧
    (secondRefill.cc.tbAvailable = 0 → secondRefill.tm.refillPacingTimer.isSome = true) := by
  have h : Reach .paced bucketConfig secondRefill := .runEvents .init _
  have hfits : ∀ e ∈ secondRefill.log, (match e with
      | .refill ms rate => decide (ms * rate < 2 ^ 32)
      | _ => true) = true := by decide +kernel
  exact ⟨by decide +kernel, (h.stocked (by decide +kernel) (by decide +kernel)).mpr fun ms rate hm =>
    .inl (of_decide_eq_true (hfits _ hm))⟩

/-- After 65536 milliseconds the bucket is empty, and nothing will refill it. -/
theorem Reach.stocked_idle : ∃ s, Reach .paced bucketConfig s ∧ s.st.closed = false ∧
    .refill (2 ^ 16) (2 ^ 16) ∈ s.log ∧ ¬ LeavesTokens (2 ^ 16) (2 ^ 16) ∧
    s.cc.tbAvailable = 0 ∧ s.tm.refillPacingTimer = none := by
  refine ⟨_, Reach.runEvents .init (idleEvents (2 ^ 16)), by decide +kernel, ?_, ?_, by decide +kernel,
    by decide +kernel⟩
  · have hany : (Udx.runEvents .paced (idleEvents (2 ^ 16)) (Udx.init .paced bucketConfig)).log.any
        (fun
          | .refill ms rate => ms == 2 ^ 16 && rate == 2 ^ 16
          | _ => false) = true := by decide +kernel
    obtain ⟨e, hmem, he⟩ := List.any_eq_true.mp hany
    cases e with
    | refill ms rate =>
      simp only [Bool.and_eq_true, beq_iff_eq] at he
      rwa [he.1, he.2] at hmem
    | _ => cases he
  · rw [leavesTokens_iff]
    unfold RefillFits
    omega

end Udx
