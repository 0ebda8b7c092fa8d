/-
# Routing by local id

Which stream an id is looked up to. A stream that closes, and a TIME-WAIT
that expires, remove the entry of an id, not their own: as long as every
stream that closes finds its own entry or none under its id, the entry of an
id is that of its newest stream until that closes, and every TIME-WAIT finds
its own.

Key definitions: `Routes`, `Routed`, `Routing`, `OwnEntries`.
Key theorems: `routing`, `routing_reused`.
-/
import Udx.Registry

namespace Udx.Registry

open Serial

/-- The part of the state that routing is about. -/
structure Routes where
  ids : ℕ → SeqNo
  closed : ℕ → Bool
  nstreams : ℕ
  table : StreamTable Entry
  timewaits : ℕ → Timewait
  ntimewaits : ℕ
  queues : ℕ → List ℕ

def State.routes (u : State) : Routes :=
  { ids := u.localId, closed := fun s => (u.streams s).closed, nstreams := u.nstreams,
    table := u.streamTable, timewaits := u.timewaits, ntimewaits := u.ntimewaits,
    queues := fun k => (u.sockets k).timewaitQueue }

/-- Stream `s` is open, and the newest of its id. -/
def Routes.Newest (r : Routes) (s : ℕ) : Prop :=
  s < r.nstreams ∧ r.closed s = false ∧ ∀ s' < r.nstreams, s < s' → r.ids s' ≠ r.ids s

/-- Every entry is that of an open stream or a running TIME-WAIT with its id. -/
structure Routed (r : Routes) : Prop where
  stream : ∀ {id s}, r.table.get id = some (.stream s) →
    s < r.nstreams ∧ r.ids s = id ∧ r.closed s = false
  timewait : ∀ {id t}, r.table.get id = some (.timewait t) →
    (r.timewaits t).localId = id ∧ (r.timewaits t).armed = true
  armed : ∀ {t}, (r.timewaits t).armed = true →
    t < r.ntimewaits ∧ r.table.get (r.timewaits t).localId = some (.timewait t)
  queue : ∀ {k t}, t ∈ r.queues k → (r.timewaits t).armed = true ∧ (r.timewaits t).socket = k
  nodup : ∀ k, (r.queues k).Nodup
  newest : ∀ {s}, r.Newest s → r.table.get (r.ids s) = some (.stream s)

/-! ### What leaves routing alone -/

section

variable (u : State)

theorem setStream_routes {s : ℕ} {f : Stream → Stream}
    (hid : (f (u.streams s)).localId = (u.streams s).localId)
    (hc : (f (u.streams s)).closed = (u.streams s).closed) :
    (u.setStream s f).routes = u.routes := by
  unfold State.routes State.setStream State.localId
  congr 1 <;> funext x <;> by_cases hx : x = s
  · simp [hx, hid]
  · simp [hx]
  · simp [hx, hc]
  · simp [hx]

theorem setSocket_routes {k : ℕ} {f : Socket → Socket}
    (hq : (f (u.sockets k)).timewaitQueue = (u.sockets k).timewaitQueue) :
    (u.setSocket k f).routes = u.routes := by
  unfold State.routes State.setSocket
  congr 1
  funext x
  by_cases hx : x = k <;> simp [hx, hq]

theorem setHead_routes (socket h : Option ℕ) : (u.setHead socket h).routes = u.routes := by
  cases socket with
  | none => rfl
  | some k => exact setSocket_routes u rfl

theorem linkStream_routes (socket : Option ℕ) (s : ℕ) : (linkStream socket s u).routes = u.routes :=
  setHead_routes _ _ _

theorem unlinkStream_routes (socket : Option ℕ) (s : ℕ) :
    (unlinkStream socket s u).routes = u.routes := setHead_routes _ _ _

theorem setStreamSocket_routes (s k : ℕ) : (setStreamSocket s k u).routes = u.routes := by
  unfold setStreamSocket
  split
  · rfl
  · dsimp only
    rw [linkStream_routes, setStream_routes _ rfl rfl, unlinkStream_routes]

end

/-! ### What changes it -/

namespace Routes

/-- A TIME-WAIT is over. -/
def drop (t : ℕ) (r : Routes) : Routes :=
  { r with
    timewaits := Function.update r.timewaits t { r.timewaits t with armed := false }
    queues := Function.update r.queues (r.timewaits t).socket
      ((r.queues (r.timewaits t).socket).erase t) }

/-- A TIME-WAIT expires. -/
def expire (t : ℕ) (r : Routes) : Routes :=
  { r with table := r.table.remove (r.timewaits t).localId }.drop t

/-- A new TIME-WAIT takes an id. -/
def wait (id : SeqNo) (k : ℕ) (r : Routes) : Routes :=
  { r with
    table := r.table.set id (.timewait r.ntimewaits)
    timewaits := Function.update r.timewaits r.ntimewaits
      { localId := id, socket := k, armed := true }
    ntimewaits := r.ntimewaits + 1
    queues := Function.update r.queues k (r.queues k ++ [r.ntimewaits]) }

/-- Stream `s` closes, and leaves a TIME-WAIT on a socket or none. -/
def close (s : ℕ) (wanted : Option ℕ) (r : Routes) : Routes :=
  let r := { r with closed := Function.update r.closed s true }
  match wanted with
  | none => { r with table := r.table.remove (r.ids s) }
  | some k => r.wait (r.ids s) k

/-- A new stream takes an id. -/
def init (id : SeqNo) (r : Routes) : Routes :=
  let new := { r with
    ids := Function.update r.ids r.nstreams id
    closed := Function.update r.closed r.nstreams false
    nstreams := r.nstreams + 1
    table := r.table.set id (.stream r.nstreams) }
  match r.table.get id with
  | some (.timewait t) => new.drop t
  | _ => new

end Routes

section

variable {r : Routes} {s t k : ℕ}

theorem Routes.drop_timewait (t' : ℕ) (r : Routes) :
    ((r.drop t).timewaits t').localId = (r.timewaits t').localId ∧
      ((r.drop t).timewaits t').socket = (r.timewaits t').socket ∧
      ((r.drop t).timewaits t').armed = ((r.timewaits t').armed && decide (t' ≠ t)) := by
  unfold drop
  by_cases h : t' = t
  · simp [h]
  · simp [h]

theorem Routes.mem_drop_queue (hq : ∀ {k t}, t ∈ r.queues k → (r.timewaits t).socket = k)
    (hn : ∀ k, (r.queues k).Nodup) {x : ℕ} :
    x ∈ (r.drop t).queues k ↔ x ∈ r.queues k ∧ x ≠ t := by
  unfold drop
  dsimp only
  by_cases hk : k = (r.timewaits t).socket
  · rw [hk, Function.update_self, (hn _).mem_erase_iff]
    exact and_comm
  · rw [Function.update_of_ne hk]
    refine ⟨fun h => ⟨h, ?_⟩, And.left⟩
    rintro rfl
    exact hk (hq h).symm

theorem Routes.drop_queue_nodup (hn : ∀ k, (r.queues k).Nodup) (k : ℕ) :
    ((r.drop t).queues k).Nodup := by
  unfold drop
  dsimp only
  by_cases hk : k = (r.timewaits t).socket
  · rw [hk, Function.update_self]
    exact (hn _).erase _
  · rw [Function.update_of_ne hk]
    exact hn k

theorem Routed.expire (h : Routed r) (ht : (r.timewaits t).armed = true) : Routed (r.expire t) := by
  obtain ⟨-, hown⟩ := h.armed ht
  have hmem := fun {k t'} => Routes.mem_drop_queue (t := t) (k := k) (x := t')
    (r := { r with table := r.table.remove (r.timewaits t).localId })
    (fun hm => (h.queue hm).2) h.nodup
  unfold Routes.expire
  refine ⟨fun {id s} he => ?_, fun {id t'} he => ?_, fun {t'} ha => ?_, fun {k t'} hm => ?_,
    Routes.drop_queue_nodup h.nodup, fun {s} hs => ?_⟩
  · have he' : (r.table.remove (r.timewaits t).localId).get id = some (.stream s) := he
    rw [StreamTable.get_remove] at he'
    split at he'
    · cases he'
    · exact h.stream he'
  · have he' : (r.table.remove (r.timewaits t).localId).get id = some (.timewait t') := he
    rw [StreamTable.get_remove] at he'
    split at he'
    · cases he'
    · next hid =>
      obtain ⟨hl, -, ha⟩ := Routes.drop_timewait (t := t) t'
        { r with table := r.table.remove (r.timewaits t).localId }
      obtain ⟨hl', ha'⟩ := h.timewait he'
      have hne : t' ≠ t := by
        rintro rfl
        exact hid hl'.symm
      exact ⟨hl.trans hl', by rw [ha]; simp [ha', hne]⟩
  · obtain ⟨hl, -, harm⟩ := Routes.drop_timewait (t := t) t'
      { r with table := r.table.remove (r.timewaits t).localId }
    rw [harm, Bool.and_eq_true, decide_eq_true_eq] at ha
    obtain ⟨hlt, hget⟩ := h.armed ha.1
    refine ⟨hlt, ?_⟩
    rw [hl]
    show (r.table.remove (r.timewaits t).localId).get (r.timewaits t').localId = _
    rw [StreamTable.get_remove, if_neg]
    · exact hget
    · intro hid
      rw [hid, hown] at hget
      exact ha.2 (Entry.timewait.inj (Option.some.inj hget)).symm
  · obtain ⟨hm', hne⟩ := hmem.mp hm
    obtain ⟨-, hs, ha⟩ := Routes.drop_timewait (t := t) t'
      { r with table := r.table.remove (r.timewaits t).localId }
    obtain ⟨ha', hs'⟩ := h.queue hm'
    exact ⟨by rw [ha]; simp [ha', hne], hs.trans hs'⟩
  · have hget := h.newest (s := s) hs
    show (r.table.remove (r.timewaits t).localId).get (r.ids s) = _
    rw [StreamTable.get_remove, if_neg]
    · exact hget
    · intro hid
      rw [hid, hown] at hget
      cases hget

theorem Routed.close (h : Routed r) (s : ℕ) (wanted : Option ℕ)
    (hown : r.table.get (r.ids s) = none ∨ r.table.get (r.ids s) = some (.stream s)) :
    Routed (r.close s wanted) := by
  have hnotw : ∀ t, r.table.get (r.ids s) ≠ some (.timewait t) := by
    intro t ht
    rcases hown with he | he <;> rw [he] at ht <;> cases ht
  -- the entry of another id is not that of the stream
  have hother : ∀ {id s'}, r.table.get id = some (.stream s') → id ≠ r.ids s → s' ≠ s := by
    rintro id s' he hid rfl
    exact hid (h.stream he).2.1.symm
  have hnewest : ∀ {s'}, ({ r with closed := Function.update r.closed s true } : Routes).Newest s' →
      r.ids s' ≠ r.ids s ∧ r.table.get (r.ids s') = some (.stream s') := by
    rintro s' ⟨hlt, hc, hlast⟩
    have hne : s' ≠ s := by
      rintro rfl
      simp at hc
    have hget := h.newest (s := s') ⟨hlt, by simpa [Function.update_of_ne hne] using hc, hlast⟩
    refine ⟨fun hid => ?_, hget⟩
    rw [hid] at hget
    rcases hown with he | he
    · rw [he] at hget
      cases hget
    · rw [he] at hget
      exact hne (Entry.stream.inj (Option.some.inj hget)).symm
  unfold Routes.close
  cases wanted with
  | none =>
    refine ⟨fun {id s'} he => ?_, fun {id t} he => ?_, fun {t} ha => ?_, h.queue, h.nodup,
      fun {s'} hs => ?_⟩
    · have he' : (r.table.remove (r.ids s)).get id = some (.stream s') := he
      rw [StreamTable.get_remove] at he'
      split at he'
      · cases he'
      · next hid =>
        obtain ⟨hlt, hi, hc⟩ := h.stream he'
        exact ⟨hlt, hi, by simpa [Function.update_of_ne (hother he' hid)] using hc⟩
    · have he' : (r.table.remove (r.ids s)).get id = some (.timewait t) := he
      rw [StreamTable.get_remove] at he'
      split at he'
      · cases he'
      · exact h.timewait he'
    · obtain ⟨hlt, hget⟩ := h.armed ha
      refine ⟨hlt, ?_⟩
      show (r.table.remove (r.ids s)).get (r.timewaits t).localId = _
      rw [StreamTable.get_remove, if_neg]
      · exact hget
      · intro hid
        rw [hid] at hget
        exact hnotw t hget
    · obtain ⟨hid, hget⟩ := hnewest hs
      show (r.table.remove (r.ids s)).get (r.ids s') = _
      rw [StreamTable.get_remove, if_neg hid]
      exact hget
  | some k =>
    have harmed : ∀ {t}, (r.timewaits t).armed = true → t ≠ r.ntimewaits := fun ha =>
      Nat.ne_of_lt (h.armed ha).1
    refine ⟨fun {id s'} he => ?_, fun {id t} he => ?_, fun {t} ha => ?_, fun {k' t} hm => ?_,
      fun k' => ?_, fun {s'} hs => ?_⟩
    · have he' : (r.table.set (r.ids s) (.timewait r.ntimewaits)).get id = some (.stream s') := he
      rw [StreamTable.get_set] at he'
      split at he'
      · cases he'
      · next hid =>
        obtain ⟨hlt, hi, hc⟩ := h.stream he'
        refine ⟨hlt, hi, ?_⟩
        show Function.update r.closed s true s' = false
        rw [Function.update_of_ne (hother he' hid)]
        exact hc
    · have he' : (r.table.set (r.ids s) (.timewait r.ntimewaits)).get id = some (.timewait t) := he
      rw [StreamTable.get_set] at he'
      split at he'
      · next hid =>
        obtain rfl := Entry.timewait.inj (Option.some.inj he')
        simp [Routes.wait, hid]
      · obtain ⟨hl, ha⟩ := h.timewait he'
        simp [Routes.wait, Function.update_of_ne (harmed ha), hl, ha]
    · by_cases ht : t = r.ntimewaits
      · subst ht
        simp [Routes.wait, StreamTable.get_set]
      · have ha' : (r.timewaits t).armed = true := by
          simpa [Routes.wait, Function.update_of_ne ht] using ha
        obtain ⟨hlt, hget⟩ := h.armed ha'
        have hid : (r.timewaits t).localId ≠ r.ids s := by
          intro hid
          rw [hid] at hget
          exact hnotw t hget
        refine ⟨Nat.lt_succ_of_lt hlt, ?_⟩
        simp [Routes.wait, Function.update_of_ne ht, StreamTable.get_set, hid, hget]
    · by_cases hk : k' = k
      · subst hk
        simp only [Routes.wait, Function.update_self, List.mem_append, List.mem_singleton] at hm
        rcases hm with hm | rfl
        · obtain ⟨ha, hs⟩ := h.queue hm
          simp [Routes.wait, Function.update_of_ne (harmed ha), ha, hs]
        · simp [Routes.wait]
      · simp only [Routes.wait, Function.update_of_ne hk] at hm
        obtain ⟨ha, hs⟩ := h.queue hm
        simp [Routes.wait, Function.update_of_ne (harmed ha), ha, hs]
    · by_cases hk : k' = k
      · subst hk
        simp only [Routes.wait, Function.update_self]
        rw [List.nodup_append]
        refine ⟨h.nodup _, by simp, fun t ht t' ht' => ?_⟩
        rw [List.mem_singleton.mp ht']
        exact harmed (h.queue ht).1
      · simp only [Routes.wait, Function.update_of_ne hk]
        exact h.nodup k'
    · obtain ⟨hid, hget⟩ := hnewest hs
      show (r.table.set (r.ids s) (.timewait r.ntimewaits)).get (r.ids s') = _
      rw [StreamTable.get_set, if_neg hid]
      exact hget

theorem Routed.init (h : Routed r) (id : SeqNo) : Routed (r.init id) := by
  have hstreams : ∀ {id' s}, (r.table.set id (.stream r.nstreams)).get id' = some (.stream s) →
      s < r.nstreams + 1 ∧ Function.update r.ids r.nstreams id s = id' ∧
        Function.update r.closed r.nstreams false s = false := by
    intro id' s he
    rw [StreamTable.get_set] at he
    split at he
    · next hid =>
      obtain rfl := Entry.stream.inj (Option.some.inj he)
      simp [hid]
    · obtain ⟨hlt, hi, hc⟩ := h.stream he
      have hne : s ≠ r.nstreams := Nat.ne_of_lt hlt
      simp only [Function.update_of_ne hne]
      exact ⟨Nat.lt_succ_of_lt hlt, hi, hc⟩
  have htimewait : ∀ {id' t}, (r.table.set id (.stream r.nstreams)).get id' =
      some (.timewait t) → id' ≠ id ∧ r.table.get id' = some (.timewait t) := by
    intro id' t he
    rw [StreamTable.get_set] at he
    split at he
    · cases he
    · next hid => exact ⟨hid, he⟩
  have hnewest : ∀ {s}, s < r.nstreams + 1 → Function.update r.closed r.nstreams false s = false →
      (∀ s' < r.nstreams + 1, s < s' →
        Function.update r.ids r.nstreams id s' ≠ Function.update r.ids r.nstreams id s) →
      (r.table.set id (.stream r.nstreams)).get (Function.update r.ids r.nstreams id s) =
        some (.stream s) := by
    intro s hlt hc hlast
    rw [StreamTable.get_set]
    by_cases hs : s = r.nstreams
    · simp [hs]
    · have hlt' : s < r.nstreams := by omega
      rw [Function.update_of_ne hs] at hc ⊢
      have hid : r.ids s ≠ id := by
        have hnew := hlast r.nstreams (Nat.lt_succ_self _) hlt'
        rw [Function.update_self, Function.update_of_ne hs] at hnew
        exact hnew.symm
      rw [if_neg hid]
      refine h.newest ⟨hlt', hc, fun s' hs' hss' => ?_⟩
      have hold := hlast s' (by omega) hss'
      rwa [Function.update_of_ne (Nat.ne_of_lt hs'), Function.update_of_ne hs] at hold
  unfold Routes.init
  dsimp only
  split
  · next t hold =>
    -- the TIME-WAIT whose entry is replaced is dropped
    have harmed : ∀ {t'}, (r.timewaits t').armed = true → (r.timewaits t').localId = id → t' = t := by
      intro t' ha hid
      have hget := (h.armed ha).2
      rw [hid, hold] at hget
      exact (Entry.timewait.inj (Option.some.inj hget)).symm
    refine ⟨hstreams, fun {id' t'} he => ?_, fun {t'} ha => ?_, fun {k t'} hm => ?_,
      Routes.drop_queue_nodup h.nodup, fun {s} hs => hnewest hs.1 hs.2.1 hs.2.2⟩
    · obtain ⟨hid, hget⟩ := htimewait he
      obtain ⟨hl, ha⟩ := h.timewait hget
      have hne : t' ≠ t := by
        rintro rfl
        exact hid (hl.symm.trans (h.timewait hold).1)
      obtain ⟨hl', -, ha'⟩ := Routes.drop_timewait (t := t) t' r
      exact ⟨hl'.trans hl, ha'.trans (by simp [ha, hne])⟩
    · obtain ⟨hl', -, ha'⟩ := Routes.drop_timewait (t := t) t' r
      have ha := ha'.symm.trans ha
      rw [Bool.and_eq_true, decide_eq_true_eq] at ha
      obtain ⟨hlt, hget⟩ := h.armed ha.1
      have hid : (r.timewaits t').localId ≠ id := fun hid => ha.2 (harmed ha.1 hid)
      have hl : ((r.drop t).timewaits t').localId = (r.timewaits t').localId := hl'
      refine ⟨hlt, ?_⟩
      show (r.table.set id (.stream r.nstreams)).get ((r.drop t).timewaits t').localId = _
      rw [hl, StreamTable.get_set, if_neg hid]
      exact hget
    · obtain ⟨hm', hne⟩ := (Routes.mem_drop_queue (r := r) (fun hm => (h.queue hm).2) h.nodup).mp hm
      obtain ⟨ha, hs⟩ := h.queue hm'
      obtain ⟨-, hs', ha'⟩ := Routes.drop_timewait (t := t) t' r
      exact ⟨ha'.trans (by simp [ha, hne]), hs'.trans hs⟩
  · next hold =>
    refine ⟨hstreams, fun {id' t'} he => h.timewait (htimewait he).2, fun {t'} ha => ?_, h.queue,
      h.nodup, fun {s} hs => hnewest hs.1 hs.2.1 hs.2.2⟩
    obtain ⟨hlt, hget⟩ := h.armed ha
    refine ⟨hlt, ?_⟩
    show (r.table.set id (.stream r.nstreams)).get (r.timewaits t').localId = _
    rw [StreamTable.get_set, if_neg]
    · exact hget
    · intro hid
      rw [hid] at hget
      exact hold t' hget

end

/-! ### Steps -/

/-- Every stream that closed found its own entry under its id, or none. -/
def OwnEntries (u : State) : Prop :=
  ∀ s found clearing, .streamClosed s found clearing ∈ u.log → found = none ∨ found = some (.stream s)

/-- No TIME-WAIT found another entry under its id. -/
def TimewaitsFound (u : State) : Prop := .failed .timewaitEntry ∉ u.log

/-- What is preserved: where every stream that closed found its entry, the
routes are right. -/
def Kept (u : State) : Prop := OwnEntries u → Routed u.routes ∧ TimewaitsFound u

theorem Kept.congr {u v : State} (h : Kept u) (hr : v.routes = u.routes)
    (hl : ∃ l, v.log = l ++ u.log ∧ .failed .timewaitEntry ∉ l) : Kept v := by
  obtain ⟨l, hl, hnew⟩ := hl
  intro hown
  obtain ⟨hrouted, hfound⟩ := h fun s found clearing hm => hown s found clearing (by rw [hl]; simp [hm])
  refine ⟨hr ▸ hrouted, ?_⟩
  unfold TimewaitsFound
  rw [hl, List.mem_append, not_or]
  exact ⟨hnew, hfound⟩

section

variable {u v : State}

theorem Kept.of_routes (h : Kept u) (hr : v.routes = u.routes) (hl : v.log = u.log) : Kept v :=
  h.congr hr ⟨[], hl, by simp⟩

theorem Kept.setStream (h : Kept u) (s : ℕ) {f : Stream → Stream}
    (hid : (f (u.streams s)).localId = (u.streams s).localId)
    (hc : (f (u.streams s)).closed = (u.streams s).closed) : Kept (u.setStream s f) :=
  h.of_routes (setStream_routes u hid hc) rfl

theorem Kept.note (h : Kept u) {e : LogEntry} (he : e ≠ .failed .timewaitEntry) :
    Kept (u.note e) :=
  h.congr rfl ⟨[e], rfl, by simpa using he.symm⟩

theorem Kept.check (h : Kept u) {a : Site} (ha : a ≠ .timewaitEntry) (p : Prop) [Decidable p] :
    Kept (u.check a p) := by
  unfold State.check
  split
  · exact h
  · exact h.note (by simpa using ha)

theorem Kept.push (h : Kept u) (f : Frame) : Kept (u.push f) := h.of_routes rfl rfl

theorem Kept.setStreamSocket (h : Kept u) (s k : ℕ) : Kept (setStreamSocket s k u) := by
  refine h.of_routes (setStreamSocket_routes u s k) ?_
  unfold Registry.setStreamSocket
  split
  · rfl
  · simp only [linkStream, unlinkStream, setHead_log, State.setStream]

theorem timewaitTimeout_log (t : ℕ) (u : State) : ∃ l, (timewaitTimeout t u).log = l ++ u.log := by
  unfold timewaitTimeout State.check
  dsimp only
  split
  · exact ⟨[], rfl⟩
  · exact ⟨[_], rfl⟩

theorem OwnEntries.suffix (h : OwnEntries v) (hl : ∃ l, v.log = l ++ u.log) : OwnEntries u := by
  obtain ⟨l, hl⟩ := hl
  exact fun s found clearing hm => h s found clearing (by rw [hl]; simp [hm])

theorem dropTimewait_routes (t : ℕ) (u : State) : (dropTimewait t u).routes = u.routes.drop t := by
  unfold dropTimewait State.routes State.setSocket State.setTimewait Routes.drop
  dsimp only
  congr 1
  funext k
  by_cases hk : k = (u.timewaits t).socket <;> simp [hk]

/-- `timewait_timeout` finds its own entry. -/
theorem timewaitTimeout_expire (hrouted : Routed u.routes) {t : ℕ}
    (ht : (u.timewaits t).armed = true) :
    (timewaitTimeout t u).routes = u.routes.expire t ∧ (timewaitTimeout t u).log = u.log := by
  have hget := (hrouted.armed (t := t) ht).2
  have hcheck : u.check .timewaitEntry
      (u.streamTable.get (u.timewaits t).localId = some (.timewait t)) = u := if_pos hget
  unfold timewaitTimeout
  dsimp only
  rw [hcheck]
  exact ⟨dropTimewait_routes t _, rfl⟩

theorem Kept.timewaitTimeout (h : Kept u) {t : ℕ}
    (ht : OwnEntries u → (u.timewaits t).armed = true) : Kept (timewaitTimeout t u) := by
  intro hown
  have hown' := hown.suffix (timewaitTimeout_log t u)
  obtain ⟨hrouted, hfound⟩ := h hown'
  obtain ⟨hroutes, hlog⟩ := timewaitTimeout_expire hrouted (ht hown')
  refine ⟨hroutes ▸ hrouted.expire (ht hown'), ?_⟩
  unfold TimewaitsFound
  rw [hlog]
  exact hfound

/-- The TIME-WAIT entries of a socket expire one after another. -/
theorem Kept.flush (h : Kept u) (k : ℕ) (q : List ℕ)
    (hq : OwnEntries u → (u.sockets k).timewaitQueue = q) :
    Kept (q.foldl (fun u t => Registry.timewaitTimeout t u) u) := by
  induction q generalizing u with
  | nil => exact h
  | cons t rest ih =>
    have hmem : OwnEntries u → t ∈ u.routes.queues k := by
      intro hown
      show t ∈ (u.sockets k).timewaitQueue
      rw [hq hown]
      exact List.mem_cons_self
    have harmed : OwnEntries u → (u.timewaits t).armed = true := fun hown =>
      ((h hown).1.queue (hmem hown)).1
    refine ih (h.timewaitTimeout harmed) fun hown => ?_
    have hown' := hown.suffix (timewaitTimeout_log t u)
    have hrouted := (h hown').1
    obtain ⟨hroutes, -⟩ := timewaitTimeout_expire hrouted (harmed hown')
    have hqueue : ((Registry.timewaitTimeout t u).routes).queues k =
        (u.routes.expire t).queues k := by rw [hroutes]
    have hsocket : (u.timewaits t).socket = k := (hrouted.queue (hmem hown')).2
    refine hqueue.trans ?_
    unfold Routes.expire Routes.drop
    show Function.update u.routes.queues (u.timewaits t).socket
      ((u.sockets (u.timewaits t).socket).timewaitQueue.erase t) k = rest
    rw [hsocket, Function.update_self, hq hown', List.erase_cons_head]

theorem streamTimewait_routes (s k : ℕ) (u : State) :
    (streamTimewait s k u).routes = u.routes.wait (u.localId s) k := by
  unfold streamTimewait entrySet State.routes State.setSocket State.setTimewait Routes.wait
  dsimp only
  congr 1
  funext x
  by_cases hx : x = k <;> simp [hx]

theorem closeEntry_routes (s : ℕ) (u : State) : ∃ wanted : Option ℕ,
    (closeEntry s u).routes = match wanted with
      | none => { u.routes with table := u.routes.table.remove (u.localId s) }
      | some k => u.routes.wait (u.localId s) k := by
  unfold closeEntry
  dsimp only
  split
  · next k _ _ => exact ⟨some k, streamTimewait_routes s k u⟩
  · exact ⟨none, rfl⟩

theorem markClosed_routes (s : ℕ) (u : State) : (markClosed s u).routes =
    { u.routes with closed := Function.update u.routes.closed s true } := by
  unfold markClosed State.note State.routes State.setStream State.localId
  congr 1 <;> funext x <;> by_cases hx : x = s <;> simp [hx]

/-- Up to its callbacks, `close_stream_internal` takes the entry of the stream's
id. -/
theorem closed_routes (s : ℕ) (socket : Option ℕ) (u : State) : ∃ wanted,
    (closeEntry s (unlinkStream socket s (markClosed s u))).routes = u.routes.close s wanted := by
  obtain ⟨wanted, hw⟩ := closeEntry_routes s (unlinkStream socket s (markClosed s u))
  have hmark := (unlinkStream_routes (markClosed s u) socket s).trans (markClosed_routes s u)
  have hid : (unlinkStream socket s (markClosed s u)).localId s = u.localId s :=
    congrArg (fun r => r.ids s) hmark
  refine ⟨wanted, hw.trans ?_⟩
  rw [hmark, hid]
  cases wanted <;> rfl

theorem Kept.closeStreamInternal (h : Kept u) (s : ℕ) : Kept (closeStreamInternal s u) := by
  have hcheck := h.check (a := .closeTwice) (by decide) ((u.streams s).closed = false)
  unfold Registry.closeStreamInternal
  dsimp only
  generalize u.check .closeTwice ((u.streams s).closed = false) = v at hcheck ⊢
  refine Kept.push (Kept.push ?_ _) _
  generalize ((markClosed s v).streams s).socket = socket
  obtain ⟨wanted, hroutes⟩ := closed_routes s socket v
  have hlog : (closeEntry s (unlinkStream socket s (markClosed s v))).log =
      .streamClosed s (v.streamTable.get (v.localId s)) (clearingRelay s v) :: v.log := by
    rw [closeEntry_log, unlinkStream, setHead_log]
    rfl
  intro hown
  obtain ⟨hrouted, hfound⟩ := hcheck fun s' found clearing hm => hown s' found clearing (by rw [hlog]; simp [hm])
  refine ⟨hroutes ▸ hrouted.close s wanted (hown s _ _ (by rw [hlog]; exact List.mem_cons_self)), ?_⟩
  unfold TimewaitsFound
  rw [hlog, List.mem_cons, not_or]
  exact ⟨by simp, hfound⟩

theorem Kept.closeStream (h : Kept u) (s : ℕ) (err : Bool) : Kept (closeStream s err u) := by
  obtain ⟨w, ⟨-, heq⟩ | ⟨-, heq⟩⟩ := closeStream_cases s err u <;> rw [heq]
  · exact h.setStream s rfl rfl
  · exact (h.setStream s rfl rfl).closeStreamInternal s

theorem Kept.streamDestroy (h : Kept u) (s : ℕ) (queued : Bool) :
    Kept (streamDestroy s queued u) := by
  obtain ⟨-, heq⟩ | ⟨-, ⟨d, heq⟩ | heq⟩ := streamDestroy_cases s queued u <;> rw [heq]
  · exact h
  · exact (h.setStream s rfl rfl).closeStreamInternal s
  · exact h.setStream s rfl rfl

theorem streamInit_routes (id : SeqNo) (ht : u.teardown = false) :
    (streamInit id u).routes = u.routes.init id := by
  have hnew : (entrySet id (.stream u.nstreams) (linkStream none u.nstreams
      ({ u with nstreams := u.nstreams + 1 }.setStream u.nstreams fun _ => { localId := id }))).routes =
      { u.routes with
        ids := Function.update u.routes.ids u.nstreams id
        closed := Function.update u.routes.closed u.nstreams false
        nstreams := u.nstreams + 1
        table := u.streamTable.set id (.stream u.nstreams) } := by
    unfold entrySet linkStream State.setHead State.routes State.setStream State.localId
    congr 1 <;> funext x <;> by_cases hx : x = u.nstreams <;> simp [hx]
  unfold streamInit
  rw [if_neg (by simp [ht])]
  unfold Routes.init
  dsimp only
  have hold : (linkStream none u.nstreams ({ u with nstreams := u.nstreams + 1 }.setStream
      u.nstreams fun _ => { localId := id })).streamTable.get id = u.routes.table.get id := rfl
  rw [hold]
  cases u.routes.table.get id with
  | none => exact hnew
  | some e =>
    cases e with
    | stream s => exact hnew
    | timewait t => exact (dropTimewait_routes t _).trans (congrArg (Routes.drop t) hnew)

theorem Kept.streamInit (h : Kept u) (id : SeqNo) : Kept (streamInit id u) := by
  by_cases ht : u.teardown = true
  · unfold Registry.streamInit
    rw [if_pos ht]
    exact h
  · have hlog : (Registry.streamInit id u).log = u.log := by
      unfold Registry.streamInit
      rw [if_neg ht]
      dsimp only
      split <;> rfl
    intro hown
    obtain ⟨hrouted, hfound⟩ := h fun s found clearing hm => hown s found clearing (by rw [hlog]; exact hm)
    refine ⟨streamInit_routes id (Bool.eq_false_iff.mpr ht) ▸ hrouted.init id, ?_⟩
    unfold TimewaitsFound
    rw [hlog]
    exact hfound

theorem Kept.socketClose (h : Kept u) (k : ℕ) : Kept (socketClose k u) := by
  unfold Registry.socketClose
  split
  · exact h
  · refine Kept.push (Kept.push (Kept.flush (k := k) ?_ _ fun _ => rfl) _) _
    exact (h.of_routes (setSocket_routes u rfl) rfl).note (by simp)

/-! ### The machine -/

theorem Kept.closeEnd (h : Kept u) (s : ℕ) : Kept (closeEnd s u) := by
  have hfree := h.setStream s (f := fun x => { x with relaying := x.relaying.destroy }) rfl rfl
  unfold Registry.closeEnd
  dsimp only
  split
  · split
    · exact hfree.socketClose _
    · exact hfree
  · exact hfree

theorem Kept.resume (h : Kept u) (queued : Bool) (f : Frame) : Kept (resume queued f u) := by
  cases f with
  | user => exact h
  | clearing s =>
    have hrelay : Kept (unlinkRelay s u) := by
      unfold unlinkRelay
      split
      · exact h
      · exact ((h.check (a := .relayTarget) (by decide) _).check (a := .relayBuffer) (by decide) _).setStream _
          rfl rfl
    exact hrelay.push _
  | relaying s i =>
    simp only [Registry.resume]
    split
    · split
      · exact h.push _
      · next c _ =>
        unfold destroyRelaying
        exact (((h.push _).check (by decide) _).setStream c rfl rfl).streamDestroy c queued
    · exact h.closeEnd s
  | closingSocket k => exact h.of_routes rfl rfl
  | walkSockets k =>
    cases k with
    | none => exact h
    | some k =>
      simp only [Registry.resume]
      split
      · exact (h.push _).socketClose k
      · exact (h.push _).push _
  | nextSocket k => exact h.push _
  | walkStreams k s =>
    cases s with
    | none => exact h
    | some s => exact (h.push _).streamDestroy s queued
  | nextStream k s => exact h.push _
  | walkFree => exact h.push _

theorem Kept.runCall (h : Kept u) (c : Call) : Kept (runCall c u) := by
  cases c with
  | socketInit =>
    simp only [Registry.runCall, Registry.socketInit]
    split
    · exact h
    · intro hown
      obtain ⟨hrouted, hfound⟩ := h hown
      refine ⟨⟨hrouted.stream, hrouted.timewait, hrouted.armed, fun {k t} hm => ?_, fun k => ?_,
        hrouted.newest⟩, hfound⟩
      · by_cases hk : k = u.nsockets
        · simp [State.routes, hk] at hm
        · exact hrouted.queue (by simpa [State.routes, Function.update_of_ne hk] using hm)
      · by_cases hk : k = u.nsockets
        · simp [State.routes, hk]
        · simpa [State.routes, Function.update_of_ne hk] using hrouted.nodup k
  | streamInit id => exact h.streamInit id
  | connect s k =>
    simp only [Registry.runCall, streamConnect]
    split_ifs
    · exact h
    · exact h
    · exact (h.setStream s rfl rfl).setStreamSocket s k
  | changeRemote s k ok =>
    simp only [Registry.runCall, streamChangeRemote]
    split_ifs
    · exact h
    · exact h
    · exact h.setStreamSocket s k
    · exact h
  | writeEnd s wanted =>
    simp only [Registry.runCall, streamWriteEnd]
    split
    · exact h.setStream s rfl rfl
    · exact h
  | relayTo s d =>
    simp only [Registry.runCall, streamRelayTo]
    split
    · exact h
    · exact ((h.note (by simp)).setStream s rfl rfl).setStream d rfl rfl
  | destroy s queued => exact h.streamDestroy s queued
  | teardown => exact h.of_routes rfl rfl

theorem Kept.step (h : Kept u) (hs : Step u v) : Kept v := by
  cases hs with
  | call c => exact h.runCall c
  | returned => exact h.of_routes rfl rfl
  | event e _ he =>
    cases e with
    | closeStream s err => exact h.closeStream s err
    | destroySent s => exact (h.setStream s rfl rfl).closeStreamInternal s
    | timewaitTimeout t => exact h.timewaitTimeout fun _ => he
    | socketClose k => exact h.socketClose k
  | @resume f rest queued =>
    exact Kept.resume (u := { u with stack := rest }) (h.of_routes rfl rfl) queued f

end

theorem Reach.kept {u : State} (h : Reach u) : Kept u := by
  induction h with
  | init =>
    refine fun _ => ⟨⟨?_, ?_, ?_, ?_, fun _ => List.nodup_nil, ?_⟩, by simp [TimewaitsFound]⟩
    · exact fun he => by simp [State.routes] at he
    · exact fun he => by simp [State.routes] at he
    · exact fun ha => by simp [State.routes] at ha
    · exact fun hm => by simp [State.routes] at hm
    · exact fun hs => absurd hs.1 (Nat.not_lt_zero _)
  | step _ hs ih => exact ih.step hs

/-! ### The entries of open streams -/

/-- `udx_stream_entry_get` gives the newest stream of every id while it is
open, and every TIME-WAIT that expired removed its own entry. -/
def Routing (u : State) : Prop :=
  (∀ s < u.nstreams, (u.streams s).closed = false →
    (∀ s' < u.nstreams, s < s' → u.localId s' ≠ u.localId s) →
      u.streamTable.get (u.localId s) = some (.stream s)) ∧
    .failed .timewaitEntry ∉ u.log

/-- Ids are routed right in every run whose streams, as they close, find their
own entry under their id or none. -/
theorem routing {u : State} (h : Reach u) (hown : OwnEntries u) : Routing u := by
  obtain ⟨hrouted, hfound⟩ := h.kept hown
  exact ⟨fun s hs hc hlast => hrouted.newest ⟨hs, hc, hlast⟩, hfound⟩

/-- Two streams of one id; the older one is destroyed. -/
def reused : State := runCall (.destroy 0 false) (runCall (.streamInit 7) (runCall (.streamInit 7) {}))

/-- A stream ends after another took its id: its TIME-WAIT has the entry. -/
def reusedWait : State :=
  proceed^[5] (runEvent (.closeStream 0 false) (runCall (.streamInit 7) (runCall (.writeEnd 0 true)
    (runCall (.connect 0 0) (runCall (.streamInit 7) (runCall .socketInit {}))))))

/-- Then the other is destroyed, and the TIME-WAIT expires. -/
def expired : State :=
  runEvent (.timewaitTimeout 0) (proceed^[5] (runCall (.destroy 1 false) reusedWait))

theorem reusedWait_reach : Reach reusedWait := by
  refine .proceed (.step (.step (.step (.step (.step (.step .init
    (.call .socketInit (.inl rfl) trivial)) (.call (.streamInit 7) (.inl rfl) trivial))
    (.call (.connect 0 0) (.inl rfl) ?_)) (.call (.writeEnd 0 true) (.inl rfl) ?_))
    (.call (.streamInit 7) (.inl rfl) trivial)) (.event (.closeStream 0 false) rfl ?_)) 5
  · exact ⟨Nat.zero_lt_one, Nat.zero_lt_one, rfl⟩
  · exact Nat.zero_lt_one
  · exact ⟨Nat.zero_lt_two, rfl⟩

/-- The entry of the newer stream is removed as the older one closes; and a
TIME-WAIT does not find its own. -/
theorem routing_reused : (∃ u, Reach u ∧ ¬ Routing u) ∧
    ∃ u, Reach u ∧ .failed .timewaitEntry ∈ u.log := by
  refine ⟨⟨reused, ?_, fun h => ?_⟩, expired, ?_, ?_⟩
  · exact .step (.step (.step .init (.call (.streamInit 7) (.inl rfl) trivial))
      (.call (.streamInit 7) (.inl rfl) trivial)) (.call (.destroy 0 false) (.inl rfl) Nat.zero_lt_two)
  · have hget := h.1 1 (by decide) rfl fun s' hs' hlt => absurd (Nat.lt_of_lt_of_le hs' hlt)
      (Nat.lt_irrefl _)
    have hgone : reused.streamTable.get 7 = none := by decide
    rw [show reused.localId 1 = 7 from rfl, hgone] at hget
    cases hget
  · exact .step (.proceed (.step reusedWait_reach (.call (.destroy 1 false) (.inl rfl)
      Nat.one_lt_two)) 5) (.event (.timewaitTimeout 0) rfl rfl)
  · exact List.mem_cons_self

/-- A stream ends, and while it is in TIME-WAIT another takes its id. -/
def takenOver : State :=
  runCall (.streamInit 7) (proceed^[5] (runEvent (.closeStream 0 false) (runCall (.writeEnd 0 true)
    (runCall (.connect 0 0) (runCall (.streamInit 7) (runCall .socketInit {}))))))

/-- That one ends too, its TIME-WAIT expires, and a third takes the id. -/
def takenAgain : State :=
  runCall (.streamInit 7) (runEvent (.timewaitTimeout 1) (proceed^[5] (runEvent (.closeStream 1 false)
    (runCall (.writeEnd 1 true) (runCall (.connect 1 0) takenOver)))))

theorem takenOver_reach : Reach takenOver := by
  refine .step (.proceed (.step (.step (.step (.step (.step .init
    (.call .socketInit (.inl rfl) trivial)) (.call (.streamInit 7) (.inl rfl) trivial))
    (.call (.connect 0 0) (.inl rfl) ?_)) (.call (.writeEnd 0 true) (.inl rfl) ?_))
    (.event (.closeStream 0 false) rfl ?_)) 5) (.call (.streamInit 7) (.inl rfl) trivial)
  · exact ⟨Nat.zero_lt_one, Nat.zero_lt_one, rfl⟩
  · exact Nat.zero_lt_one
  · exact ⟨Nat.zero_lt_one, rfl⟩

theorem takenAgain_reach : Reach takenAgain := by
  refine .step (.step (.proceed (.step (.step (.step takenOver_reach
    (.call (.connect 1 0) (.inl rfl) ?_)) (.call (.writeEnd 1 true) (.inl rfl) ?_))
    (.event (.closeStream 1 false) rfl ?_)) 5) (.event (.timewaitTimeout 1) rfl rfl))
    (.call (.streamInit 7) (.inl rfl) trivial)
  · exact ⟨Nat.one_lt_two, Nat.zero_lt_one, rfl⟩
  · exact Nat.one_lt_two
  · exact ⟨Nat.one_lt_two, rfl⟩

/-- The third is open, and found under the id. -/
theorem routing_takenAgain : OwnEntries takenAgain ∧ Routing takenAgain ∧
    (takenAgain.streams 2).closed = false ∧ takenAgain.streamTable.get 7 = some (.stream 2) := by
  have hown : OwnEntries takenAgain := by
    intro s found clearing hm
    have hlog : takenAgain.log =
        [.streamClosed 1 (some (.stream 1)) none, .streamClosed 0 (some (.stream 0)) none] := rfl
    rw [hlog, List.mem_cons, List.mem_singleton] at hm
    rcases hm with he | he
    · injection he with hs hf _
      exact .inr (by rw [hf, hs])
    · injection he with hs hf _
      exact .inr (by rw [hf, hs])
  have hrouting : Routing takenAgain := routing takenAgain_reach hown
  refine ⟨hown, hrouting, rfl, hrouting.1 2 (by decide) rfl fun s' hs' hlt => ?_⟩
  exact absurd (Nat.lt_of_lt_of_le hs' hlt) (Nat.lt_irrefl _)

end Udx.Registry
