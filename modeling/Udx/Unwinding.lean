/-
# Teardown comes to its end

Once `udx_teardown` has been called nothing is opened any more, so a callback
can be followed by another only where a stream or a socket closes. In between
every step of the call stack has less to do: a close goes through the relay
table of its stream, a walk through a list, past nodes that have left it. So the
stack empties, whatever the callbacks call in the meantime, and with the last
destroy packet everything is closed.

Key definitions: `Costs`, `Pays`, `Still`, `Shrinks`, `Onward`, `State.Done`.
Key theorems: `Reach.pays`, `Ahead.lower`, `Onward.lower`, `tornDown`.
-/
import Udx.Teardown
import Mathlib.Data.List.Nodup
import Mathlib.Data.List.Perm.Subperm
import Mathlib.Logic.Relation

namespace Udx.Registry

open Serial

/-! ### What is left to do -/

/-- What is open: all there is but what was closed. -/
def Fleet.left (p : Fleet) : ℕ := p.r.nstreams + p.r.nsockets - (p.r.closes.length + p.shuts.length)

/-- A frame goes on at most `w` times, with the frames that take its place, if
nothing is closed. A walk over the sockets pays for the walks over their
streams. -/
def Costs (p : Fleet) : Frame → ℕ → Prop
  | .user, w | .closingSocket _, w => 1 ≤ w
  | .clearing s, w => (p.r.relaying s).size + 2 ≤ w
  | .relaying s i, w => (p.r.relaying s).size - i + 1 ≤ w
  | .walkStreams _ n, w => ∃ m, p.r.link.Ends n m ∧ 2 * m + 1 ≤ w
  | .nextStream _ s, w => ∃ m, p.r.link.Ends (some s) (m + 1) ∧ 2 * m + 2 ≤ w
  | .walkFree, w => 2 * p.r.nstreams + 2 ≤ w
  | .walkSockets n, w => ∃ m, p.link.Ends n m ∧ (2 * p.r.nstreams + 4) * m + 1 ≤ w
  | .nextSocket k, w => ∃ m, p.link.Ends (some k) (m + 1) ∧ (2 * p.r.nstreams + 4) * m + 2 ≤ w

/-- The frames go on at most `w` times in all. -/
def Pays (p : Fleet) : List Frame → ℕ → Prop
  | [], _ => True
  | f :: st, w => ∃ a b, Costs p f a ∧ Pays p st b ∧ a + b ≤ w

theorem Pays.mono {p : Fleet} {st : List Frame} {w w' : ℕ} (h : Pays p st w) (hle : w ≤ w') : Pays p st w' := by
  cases st with
  | nil => trivial
  | cons f st =>
    obtain ⟨a, b, ha, hb, hab⟩ := h
    exact ⟨a, b, ha, hb, Nat.le_trans hab hle⟩

theorem Pays.append {p : Fleet} {l st : List Frame} {a b : ℕ} (hl : Pays p l a) (h : Pays p st b) :
    Pays p (l ++ st) (a + b) := by
  induction l generalizing a with
  | nil => exact h.mono (Nat.le_add_left ..)
  | cons f l ih =>
    obtain ⟨c, d, hc, hd, hcd⟩ := hl
    exact ⟨c, d + b, hc, ih hd, by omega⟩

/-- Every stack whose frames can pay can pay. -/
theorem Pays.of_all {p : Fleet} {st : List Frame} (h : ∀ f ∈ st, ∃ w, Costs p f w) : ∃ w, Pays p st w := by
  induction st with
  | nil => exact ⟨0, trivial⟩
  | cons f st ih =>
    obtain ⟨a, ha⟩ := h f List.mem_cons_self
    obtain ⟨b, hb⟩ := ih fun g hg => h g (List.mem_cons_of_mem _ hg)
    exact ⟨a + b, a, b, ha, hb, Nat.le_refl _⟩

section

variable {u v w : State} {s k : ℕ} {e : Option ℕ}

/-- Every walk on the stack comes to an end. -/
theorem Reach.pays (h : Reach u) (hs : ClosesApart u) : ∃ w, Pays u.fleet u.stack w := by
  obtain ⟨xs, hl⟩ := h.enlisted
  obtain ⟨ks, hks⟩ := h.toured hs
  refine Pays.of_all fun f hf => ?_
  have hwalk : ∀ {o n}, u.roster.Walk (xs o) o n → ∃ m, u.streamLink.Ends n m := by
    rintro o n ⟨pre, post, hxs, hleads, -⟩
    exact hleads.ends (hl.rep o) hxs
  cases f with
  | user | closingSocket | clearing | relaying | walkFree => exact ⟨_, Nat.le_refl _⟩
  | walkStreams o n =>
    obtain ⟨m, hm⟩ := hwalk (hl.fits _ hf)
    exact ⟨_, m, hm, Nat.le_refl _⟩
  | nextStream o a =>
    obtain ⟨m, hm⟩ := hwalk (hl.fits _ hf).1
    cases hm with
    | @some _ m hm => exact ⟨_, m, .some hm, Nat.le_refl _⟩
  | walkSockets n =>
    obtain ⟨pre, post, heq, rfl, -⟩ := hks.walk hf
    exact ⟨_, _, Link.Rep.ends _ _ (heq ▸ hks.rep), Nat.le_refl _⟩
  | nextSocket k =>
    obtain ⟨q, below, hst⟩ := List.append_of_mem hf
    rcases hks.next hst with ⟨pre, post, heq, -⟩ | ⟨-, -, pre, post, heq, hnext, -⟩
    · exact ⟨_, _, Link.Rep.ends pre (k :: post) (heq ▸ hks.rep), Nat.le_refl _⟩
    · refine ⟨_, post.length, .some ?_, Nat.le_refl _⟩
      have hrest := Link.Rep.ends _ _ (heq ▸ hks.rep)
      rwa [← hnext] at hrest

/-- No more is closed than there is. -/
theorem Reach.closes_le (h : Reach u) (hs : ClosesApart u) :
    u.fleet.r.closes.length + u.fleet.shuts.length ≤ u.nstreams + u.nsockets := by
  obtain ⟨xs, hl⟩ := h.enlisted
  obtain ⟨ks, hks⟩ := h.toured hs
  have hle : ∀ {l : List ℕ} {n : ℕ}, l.Nodup → (∀ x ∈ l, x < n) → l.length ≤ n := by
    intro l n hnodup hlt
    have hsub := hnodup.subperm fun x hx => List.mem_range.mpr (hlt x hx)
    exact Nat.le_trans hsub.length_le (Nat.le_of_eq List.length_range)
  have hcloses := hle hl.closes.1 fun s hx => ((hl.closes.2 s).mp hx).1
  have hshuts := hle hks.shuts.1 fun k hx => ((hks.shuts.2 k).mp hx).1
  exact Nat.add_le_add hcloses hshuts

/-! ### Steps that close nothing -/

/-- Nothing is opened or closed from `u` to `v`, and no walk gets longer. -/
structure Still (u v : State) : Prop where
  teardown : v.teardown = u.teardown
  nstreams : v.nstreams = u.nstreams
  nsockets : v.nsockets = u.nsockets
  closes : v.roster.closes = u.roster.closes
  shuts : v.fleet.shuts = u.fleet.shuts
  streamLink : v.streamLink = u.streamLink
  socketLink : ∀ {n m}, u.socketLink.Ends n m → ∃ m' ≤ m, v.socketLink.Ends n m'
  relaying : ∀ s, (u.streams s).closed = true → (v.streams s).closed = true ∧
    (v.streams s).relaying.size ≤ (u.streams s).relaying.size
  log : ∃ l, v.log = l ++ u.log

namespace Still

theorem refl (u : State) : Still u u :=
  ⟨rfl, rfl, rfl, rfl, rfl, rfl, fun h => ⟨_, Nat.le_refl _, h⟩, fun _ hc => ⟨hc, Nat.le_refl _⟩, [], rfl⟩

theorem trans (h : Still u v) (h' : Still v w) : Still u w := by
  refine ⟨h'.teardown.trans h.teardown, h'.nstreams.trans h.nstreams, h'.nsockets.trans h.nsockets,
    h'.closes.trans h.closes, h'.shuts.trans h.shuts, h'.streamLink.trans h.streamLink, fun hm => ?_,
    fun s hc => ?_, ?_⟩
  · obtain ⟨m, hle, hm⟩ := h.socketLink hm
    obtain ⟨m', hle', hm'⟩ := h'.socketLink hm
    exact ⟨m', Nat.le_trans hle' hle, hm'⟩
  · obtain ⟨hc, hle⟩ := h.relaying s hc
    obtain ⟨hc', hle'⟩ := h'.relaying s hc
    exact ⟨hc', Nat.le_trans hle' hle⟩
  · obtain ⟨l, hl⟩ := h.log
    obtain ⟨l', hl'⟩ := h'.log
    exact ⟨l' ++ l, by rw [hl', hl, List.append_assoc]⟩

/-- The lists and the sockets stay as they are, and no table of a closed stream
grows. -/
theorem of_roster (ha : Ashore u v) {d q : ℕ → Bool} {t : ℕ → Cirbuf} {st : List Frame}
    (hr : v.roster = { u.roster with destroying := d, queued := q, relaying := t, stack := st })
    (ht : ∀ s, (u.streams s).closed = true → (t s).size ≤ (u.streams s).relaying.size) : Still u v := by
  obtain ⟨hlink, -, hshuts, hlog⟩ := ha
  have hclosed : ∀ s, (v.streams s).closed = (u.streams s).closed := fun s =>
    congrArg (fun r : Roster => r.closed s) hr
  have htable : ∀ s, (v.streams s).relaying = t s := fun s => congrArg (fun r : Roster => r.relaying s) hr
  refine ⟨(congrArg Roster.teardown hr :), (congrArg Roster.nstreams hr :), (congrArg Roster.nsockets hr :),
    (congrArg Roster.closes hr :), hshuts, (congrArg Roster.link hr :), fun {n m} hm => ⟨m, Nat.le_refl _, ?_⟩,
    fun s hc => ⟨(hclosed s).trans hc, ?_⟩, hlog⟩
  · rw [hlink]
    exact hm
  · rw [htable]
    exact ht s hc

theorem congr (ha : Ashore u v) (hr : v.roster = u.roster) : Still u v :=
  of_roster ha hr fun _ _ => Nat.le_refl _

theorem restack (st : List Frame) : Still u { u with stack := st } :=
  of_roster ⟨rfl, rfl, rfl, [], rfl⟩ rfl fun _ _ => Nat.le_refl _

/-- A frame costs no more than before. -/
theorem costs (h : Still u v) (hl : Enlisted u e) {f : Frame} {a : ℕ} (hf : f ∈ u.stack)
    (ha : Costs u.fleet f a) : Costs v.fleet f a := by
  obtain ⟨xs, hl⟩ := hl
  have hlink : v.fleet.r.link = u.fleet.r.link := h.streamLink
  have hn : v.fleet.r.nstreams = u.fleet.r.nstreams := h.nstreams
  cases f with
  | user | closingSocket => exact ha
  | clearing s =>
    have hle := (h.relaying s (hl.fits _ hf).2).2
    exact Nat.le_trans (Nat.add_le_add_right hle 2) ha
  | relaying s i =>
    have hle := (h.relaying s (hl.fits _ hf).2).2
    exact Nat.le_trans (Nat.add_le_add_right (Nat.sub_le_sub_right hle i) 1) ha
  | walkStreams o n =>
    unfold Costs at ha ⊢
    rwa [hlink]
  | nextStream o s =>
    unfold Costs at ha ⊢
    rwa [hlink]
  | walkFree =>
    unfold Costs at ha ⊢
    rwa [hn]
  | walkSockets n =>
    obtain ⟨m, hm, hle⟩ := ha
    obtain ⟨m', hle', hm'⟩ := h.socketLink hm
    refine ⟨m', hm', ?_⟩
    rw [hn]
    exact Nat.le_trans (Nat.add_le_add_right (Nat.mul_le_mul_left _ hle') 1) hle
  | nextSocket k =>
    obtain ⟨m, hm, hle⟩ := ha
    obtain ⟨m', hle', hm'⟩ := h.socketLink hm
    cases hm' with
    | @some _ m' hm' =>
      refine ⟨m', .some hm', ?_⟩
      rw [hn]
      exact Nat.le_trans (Nat.add_le_add_right (Nat.mul_le_mul_left _ (Nat.le_of_succ_le_succ hle')) 2) hle

theorem pays (h : Still u v) (hl : Enlisted u e) {st : List Frame} (hst : ∀ f ∈ st, f ∈ u.stack) {a : ℕ}
    (ha : Pays u.fleet st a) : Pays v.fleet st a := by
  induction st generalizing a with
  | nil => trivial
  | cons f st ih =>
    obtain ⟨b, c, hb, hc, hle⟩ := ha
    exact ⟨b, c, h.costs hl (hst f List.mem_cons_self) hb,
      ih (fun g hg => hst g (List.mem_cons_of_mem _ hg)) hc, hle⟩

end Still

/-! ### Steps that close -/

/-- A stream or a socket is closed from `u` to `v`. -/
structure Shrinks (u v : State) : Prop where
  teardown : v.teardown = u.teardown
  nstreams : v.nstreams = u.nstreams
  nsockets : v.nsockets = u.nsockets
  more : u.roster.closes.length + u.fleet.shuts.length < v.roster.closes.length + v.fleet.shuts.length
  log : ∃ l, v.log = l ++ u.log

theorem Still.shrinks (h : Still u v) (h' : Shrinks v w) : Shrinks u w := by
  refine ⟨h'.teardown.trans h.teardown, h'.nstreams.trans h.nstreams, h'.nsockets.trans h.nsockets, ?_, ?_⟩
  · have hmore := h'.more
    rwa [h.closes, h.shuts] at hmore
  · obtain ⟨l, hl⟩ := h.log
    obtain ⟨l', hl'⟩ := h'.log
    exact ⟨l' ++ l, by rw [hl', hl, List.append_assoc]⟩

/-- `close_stream_internal` of a stream whose flags are changed first. -/
theorem Shrinks.closeStreamInternal {f : Stream → Stream} {d w : Bool}
    (hf : f (u.streams s) = { u.streams s with
      destroying := d, timewaitWanted := w, destroyQueued := false }) :
    Shrinks u (closeStreamInternal s (u.setStream s f)) := by
  have hset : Ashore u (u.setStream s f) := ⟨rfl, rfl, rfl, [], rfl⟩
  obtain ⟨-, -, hshuts, hlog⟩ := hset.trans (.closeStreamInternal s)
  have hr := closeStreamInternal_roster hf
  refine ⟨(congrArg Roster.teardown hr :), (congrArg Roster.nstreams hr :), (congrArg Roster.nsockets hr :), ?_,
    hlog⟩
  have hcloses := congrArg (fun r : Roster => r.closes.length) hr
  have hshuts := congrArg List.length hshuts
  show _ < (Registry.closeStreamInternal s (u.setStream s f)).roster.closes.length + List.length
    ((Registry.closeStreamInternal s (u.setStream s f)).log.filterMap LogEntry.shuts)
  rw [hshuts, hcloses]
  exact Nat.add_lt_add_right (Nat.lt_succ_self _) _

/-- `udx_socket_close` of a socket without streams. -/
theorem Shrinks.socketClose (hk : (u.sockets k).streams = none) : Shrinks u (socketClose k u) := by
  obtain ⟨-, -, hshuts, l, hlog⟩ := Ashore.socketClose hk
  have hr := socketClose_roster hk
  refine ⟨(congrArg Roster.teardown hr :), (congrArg Roster.nstreams hr :), (congrArg Roster.nsockets hr :), ?_,
    l ++ [_], by rw [hlog, List.append_assoc]; rfl⟩
  have hcloses := congrArg (fun r : Roster => r.closes.length) hr
  have hshuts := congrArg List.length hshuts
  show _ < (Registry.socketClose k u).roster.closes.length + List.length
    ((Registry.socketClose k u).log.filterMap LogEntry.shuts)
  rw [hshuts, hcloses]
  exact Nat.add_lt_add_left (Nat.lt_succ_self _) _

/-- What `udx_stream_destroy` does to the stack: it closes a stream, or does
nothing to it. -/
theorem streamDestroy_still (hl : Enlisted u e) (queued : Bool) (hs : s < u.nstreams) :
    Shrinks u (streamDestroy s queued u) ∨
      Still u (streamDestroy s queued u) ∧ (streamDestroy s queued u).stack = u.stack := by
  obtain ⟨-, heq⟩ | ⟨⟨-, hd⟩, ⟨d, heq⟩ | heq⟩ := streamDestroy_cases s queued u
  · rw [heq]
    exact .inr ⟨.refl u, rfl⟩
  · rw [heq]
    exact .inl (.closeStreamInternal (d := d) (w := false) (by rw [← hl.not_queued hs hd]))
  · rw [heq]
    have hr := setFlags_roster (u := u) (s := s) (f := fun x =>
      { x with destroying := true, timewaitWanted := false, destroyQueued := true }) rfl
    exact .inr ⟨.of_roster ⟨rfl, rfl, rfl, [], rfl⟩ hr fun _ _ => Nat.le_refl _, rfl⟩

/-! ### The rest of a run -/

/-- A call or an event that comes in between: any API call but `udx_teardown`,
and whatever the loop does. -/
inductive Aside (u : State) : State → Prop
  | call (c : Call) (hu : u.atUser) (hc : c.valid u) (hne : c ≠ .teardown) : Aside u (runCall c u)
  | event (e : Event) (hu : u.stack = []) (he : e.enabled u) : Aside u (runEvent e u)

/-- A callback returns, the frame on top goes on, or libuv is done with a
destroy packet. -/
inductive Ahead (u : State) : State → Prop
  | returned {rest : List Frame} (hu : u.stack = .user :: rest) : Ahead u { u with stack := rest }
  | resume {f : Frame} {rest : List Frame} (queued : Bool) (hu : u.stack = f :: rest) (hf : f ≠ .user) :
    Ahead u (resume queued f { u with stack := rest })
  | sent (s : ℕ) (hu : u.stack = []) (he : (Event.destroySent s).enabled u) :
    Ahead u (runEvent (.destroySent s) u)

/-- A step ahead, after any number of calls and events. -/
def Onward (u v : State) : Prop := ∃ w, Relation.ReflTransGen Aside u w ∧ Ahead w v

theorem Aside.step (h : Aside u v) : Step u v := by
  cases h with
  | call c hu hc hne => exact .call c hu hc
  | event e hu he => exact .event e hu he

theorem Ahead.step (h : Ahead u v) : Step u v := by
  cases h with
  | returned hu => exact .returned hu
  | resume queued hu hf => exact .resume queued hu hf
  | sent s hu he => exact .event _ hu he

/-- What comes in between closes something, or leaves the stack alone. -/
theorem Aside.still (h : Aside u v) (hl : Enlisted u none) (ht : u.teardown = true) :
    Shrinks u v ∨ Still u v ∧ v.stack = u.stack := by
  have hsame : ∀ {v}, v = u → Shrinks u v ∨ Still u v ∧ v.stack = u.stack := by
    rintro v rfl
    exact .inr ⟨.refl v, rfl⟩
  have hset : ∀ {x : State} (s : ℕ) {f : Stream → Stream} {c w r : Bool} {t : Option ℕ} {id : SeqNo},
      f (x.streams s) = { x.streams s with
        localId := id, connected := c, timewaitWanted := w, relayed := r, relayTo := t } →
      Still x (x.setStream s f) := fun s _ _ _ _ _ _ hf =>
    .congr ⟨rfl, rfl, rfl, [], rfl⟩ (setStream_roster hf)
  cases h with
  | call c hu hc hne =>
    cases c with
    | socketInit => exact hsame (if_pos ht)
    | streamInit id => exact hsame (if_pos ht)
    | connect s k => exact hsame (if_pos (by rw [ht, Bool.or_true]))
    | changeRemote s k ok => exact hsame (if_pos (by rw [ht, Bool.or_true]))
    | writeEnd s wanted =>
      simp only [Registry.runCall, streamWriteEnd]
      split
      · exact .inr ⟨hset s rfl, rfl⟩
      · exact hsame rfl
    | relayTo s d =>
      simp only [Registry.runCall, streamRelayTo]
      split
      · exact hsame rfl
      · next hopen =>
        have hnote : Still u (u.note (.relayTo s d (u.streams s) (u.streams d) u.localId)) :=
          .congr (.note rfl) (note_roster rfl)
        have hrelay := hnote.trans (hset s (f := fun x => { x with relayed := true, relayTo := some d }) rfl)
        refine .inr ⟨hrelay.trans ?_, rfl⟩
        refine .of_roster ⟨rfl, rfl, rfl, [], rfl⟩ (setRelaying_roster d rfl) fun x hx => ?_
        -- the destination is open
        by_cases hxd : x = d
        · subst hxd
          simp only [Bool.or_eq_true, not_or, Bool.not_eq_true] at hopen
          unfold State.setStream State.note at hx
          by_cases hxs : x = s <;> simp_all
        · exact Nat.le_of_eq (congrArg Cirbuf.size (Function.update_of_ne hxd ..))
    | destroy s queued => exact streamDestroy_still hl queued hc
    | teardown => exact absurd rfl hne
  | event e hu he =>
    cases e with
    | closeStream s err =>
      obtain ⟨w, ⟨-, heq⟩ | ⟨hd, heq⟩⟩ := closeStream_cases s err u
      · simp only [Registry.runEvent, heq]
        exact .inr ⟨hset s rfl, rfl⟩
      · simp only [Registry.runEvent, heq]
        exact .inl (.closeStreamInternal (d := (u.streams s).destroying) (w := w)
          (by rw [← hl.not_queued he.1 hd]))
    | destroySent s => exact .inl (.closeStreamInternal (f := fun x => { x with destroyQueued := false }) rfl)
    | timewaitTimeout t =>
      refine .inr ⟨.congr (.timewaitTimeout t) (timewaitTimeout_roster t), ?_⟩
      exact congrArg Roster.stack (timewaitTimeout_roster t)
    | socketClose k =>
      by_cases hk : (u.sockets k).streams = none
      · exact .inl (.socketClose hk)
      · exact hsame (if_pos hk)

/-! ### The stack goes on -/

/-- Where nothing is closed and the frames that take the place of the one on top
cost less than it did, the stack has less to pay. -/
theorem Still.lower (h : Still u v) (hl : Enlisted u e) {f : Frame} {rest : List Frame}
    (new : List Frame) (hu : u.stack = f :: rest) (hv : v.stack = new ++ rest)
    (hcost : ∀ a, Costs u.fleet f a → ∃ b < a, Pays v.fleet new b) {w : ℕ} (hw : Pays u.fleet u.stack w) :
    ∃ w' < w, Pays v.fleet v.stack w' := by
  rw [hu] at hw
  obtain ⟨a, b, ha, hb, hab⟩ := hw
  obtain ⟨a', hlt, hnew⟩ := hcost a ha
  have hrest : Pays v.fleet rest b := h.pays hl (fun g hg => by rw [hu]; exact List.mem_cons_of_mem _ hg) hb
  refine ⟨a' + b, by omega, ?_⟩
  rw [hv]
  exact hnew.append hrest

/-- The length of a list of streams. -/
theorem Enlisted.ends (hl : Enlisted u e) (o : Option ℕ) :
    ∃ m ≤ u.nstreams, u.streamLink.Ends (u.head o) m := by
  obtain ⟨xs, hl⟩ := hl
  have hrep := hl.rep o
  have hsub := hrep.nodup.subperm fun s hs => List.mem_range.mpr (hl.mem.mp hs).1
  have hends := Link.Rep.ends [] _ hrep
  rw [← hrep.head] at hends
  exact ⟨_, Nat.le_trans hsub.length_le (Nat.le_of_eq List.length_range), hends⟩

theorem Still.check (u : State) (a : Site) (p : Prop) [Decidable p] :
    Still u (u.check a p) ∧ (u.check a p).stack = u.stack :=
  ⟨.congr (.check a p) (check_roster a p), (congrArg Roster.stack (check_roster a p) :)⟩

theorem Still.unlinkRelay (u : State) (s : ℕ) :
    Still u (unlinkRelay s u) ∧ (unlinkRelay s u).stack = u.stack := by
  unfold Registry.unlinkRelay
  split
  · exact ⟨.refl u, rfl⟩
  · next d _ =>
    obtain ⟨htarget, hst⟩ := Still.check u .relayTarget ((u.streams d).closed = false ∨ d = s)
    obtain ⟨hbuffer, hst'⟩ := Still.check (u.check .relayTarget ((u.streams d).closed = false ∨ d = s)) .relayBuffer
      (((u.check .relayTarget ((u.streams d).closed = false ∨ d = s)).streams d).relaying.live = true)
    refine ⟨(htarget.trans hbuffer).trans ?_, hst'.trans hst⟩
    refine .of_roster ⟨rfl, rfl, rfl, [], rfl⟩ (setRelaying_roster d rfl) fun y _ => ?_
    by_cases hy : y = d
    · subst hy
      exact Nat.le_of_eq (by rw [Function.update_self, Cirbuf.remove_size])
    · rw [Function.update_of_ne hy]
      exact Nat.le_refl _

/-- The end of a close closes the socket, or nothing. -/
theorem closeEnd_still (s : ℕ) (u : State) :
    Shrinks u (closeEnd s u) ∨ Still u (closeEnd s u) ∧ (closeEnd s u).stack = u.stack := by
  have hfree : Still u (u.setStream s fun x => { x with relaying := x.relaying.destroy }) := by
    refine .of_roster ⟨rfl, rfl, rfl, [], rfl⟩ (setRelaying_roster s rfl) fun y _ => ?_
    by_cases hy : y = s
    · subst hy
      rw [Function.update_self]
      exact Nat.zero_le _
    · rw [Function.update_of_ne hy]
      exact Nat.le_refl _
  unfold Registry.closeEnd
  dsimp only
  split
  · split
    · next hk => exact .inl (hfree.shrinks (.socketClose hk.2))
    · exact .inr ⟨hfree, rfl⟩
  · exact .inr ⟨hfree, rfl⟩

/-- One turn of the loop over the relaying streams. -/
theorem destroyRelaying_still (hl : Enlisted u e) (queued : Bool) {c : ℕ} (hc : c < u.nstreams) :
    Shrinks u (destroyRelaying c queued u) ∨
      Still u (destroyRelaying c queued u) ∧ (destroyRelaying c queued u).stack = u.stack := by
  obtain ⟨hcheck, hst⟩ := Still.check u .relayClosed ((u.streams c).closed = false)
  have hset := hcheck.trans (.congr (v := State.setStream c (fun y => { y with relayTo := none }) _)
    ⟨rfl, rfl, rfl, [], rfl⟩ (setStream_roster rfl))
  have hlset := (hl.congr (check_roster .relayClosed ((u.streams c).closed = false))).setStream c
    (f := fun y => { y with relayTo := none }) rfl
  rcases streamDestroy_still hlset queued (Nat.lt_of_lt_of_eq hc hcheck.nstreams.symm) with h | ⟨h, hst'⟩
  · exact .inl (hset.shrinks h)
  · exact .inr ⟨hset.trans h, hst'.trans hst⟩

/-- Nothing is closed, and the stack has less to pay. -/
def Cheaper (u v : State) : Prop :=
  Still u v ∧ ∀ w, Pays u.fleet u.stack w → ∃ w' < w, Pays v.fleet v.stack w'

/-- The frame on top goes. -/
theorem Enlisted.cheaper_pop (hl : Enlisted u e) {f : Frame} {rest : List Frame} (hu : u.stack = f :: rest)
    (hcost : ∀ a, Costs u.fleet f a → 1 ≤ a) : Cheaper u { u with stack := rest } := by
  refine ⟨.restack rest, fun w => (Still.restack rest).lower hl [] hu rfl fun a ha => ?_⟩
  exact ⟨0, hcost a ha, trivial⟩

/-- Another frame takes its place. -/
theorem Enlisted.cheaper_push (hl : Enlisted u e) {f g : Frame} {rest : List Frame} (hu : u.stack = f :: rest)
    (hcost : ∀ a, Costs u.fleet f a → ∃ b < a, Costs u.fleet g b) :
    Cheaper u (State.push g { u with stack := rest }) := by
  refine ⟨.restack _, fun w => (Still.restack (g :: rest)).lower hl [g] hu rfl fun a ha => ?_⟩
  obtain ⟨b, hlt, hb⟩ := hcost a ha
  exact ⟨b, hlt, b, 0, hb, trivial, Nat.le_refl _⟩

/-- What is done after that closes something, or leaves the stack alone. -/
theorem Cheaper.andThen (h : Cheaper u v) (hl : Enlisted v e)
    (hw : Shrinks v w ∨ Still v w ∧ w.stack = v.stack) : Shrinks u w ∨ Cheaper u w := by
  obtain ⟨hstill, hlow⟩ := h
  rcases hw with hw | ⟨hw, hst⟩
  · exact .inl (hstill.shrinks hw)
  · refine .inr ⟨hstill.trans hw, fun n hn => ?_⟩
    obtain ⟨n', hlt, hn'⟩ := hlow n hn
    refine ⟨n', hlt, ?_⟩
    rw [hst]
    exact hw.pays hl (fun _ hf => hf) hn'

section

variable {rest : List Frame}

/-- The walk over the table of a stream begins. -/
theorem Enlisted.clearing_cheaper (hl : Enlisted u e) (queued : Bool) (hu : u.stack = .clearing s :: rest) :
    Cheaper u (Registry.resume queued (.clearing s) { u with stack := rest }) := by
  obtain ⟨hunlink, hst⟩ := Still.unlinkRelay { u with stack := rest } s
  have hstill : Still u ((Registry.unlinkRelay s { u with stack := rest }).push (.relaying s 0)) :=
    ((Still.restack rest).trans hunlink).trans (.restack _)
  refine ⟨hstill, fun w => hstill.lower hl [.relaying s 0] hu ?_ fun a ha => ?_⟩
  · show _ :: (Registry.unlinkRelay s { u with stack := rest }).stack = _
    rw [hst]
    rfl
  · obtain ⟨xs, hlx⟩ := hl
    have hmem : .clearing s ∈ u.stack := by rw [hu]; exact List.mem_cons_self
    have hle := (hstill.relaying s (hlx.fits _ hmem).2).2
    have ha : (u.streams s).relaying.size + 2 ≤ a := ha
    exact ⟨a - 1, by omega, a - 1, 0, Nat.le_trans (Nat.add_le_add_right hle 1) (by omega), trivial,
      Nat.le_refl _⟩

/-- A slot of the table is looked at, or the close ends. -/
theorem Enlisted.relaying_lower (hl : Enlisted u none) (queued : Bool) {i : ℕ}
    (hu : u.stack = .relaying s i :: rest) :
    Shrinks u (Registry.resume queued (.relaying s i) { u with stack := rest }) ∨
      Cheaper u (Registry.resume queued (.relaying s i) { u with stack := rest }) := by
  have hmem : .relaying s i ∈ u.stack := by rw [hu]; exact List.mem_cons_self
  simp only [Registry.resume]
  split
  · next hi =>
    have hnext : Cheaper u (State.push (.relaying s (i + 1)) { u with stack := rest }) :=
      hl.cheaper_push hu fun a ha => by
        have ha : (u.streams s).relaying.size - i + 1 ≤ a := ha
        have hi : i < (u.streams s).relaying.size := hi
        exact ⟨a - 1, by omega, show (u.streams s).relaying.size - (i + 1) + 1 ≤ a - 1 by omega⟩
    have hlnext : Enlisted (State.push (.relaying s (i + 1)) { u with stack := rest }) none :=
      hl.replace hu (fun xs hlx => hlx.fits (.relaying s i) hmem) rfl rfl
    split
    · exact .inr hnext
    · next c hc =>
      have hlt : c < u.nstreams := by
        obtain ⟨xs, hlx⟩ := hl
        exact hlx.held (d := s) ⟨i, hc⟩
      exact hnext.andThen hlnext (destroyRelaying_still hlnext queued hlt)
  · have hpop := hl.cheaper_pop hu fun a ha => Nat.le_trans (Nat.le_add_left ..) ha
    exact hpop.andThen (hl.pop hu rfl) (closeEnd_still s _)

/-- A socket without streams closes; the walk over the streams of another one
is paid for. -/
theorem Enlisted.walkSockets_lower (hl : Enlisted u none) (queued : Bool)
    (hu : u.stack = .walkSockets (some k) :: rest) :
    Shrinks u (Registry.resume queued (.walkSockets (some k)) { u with stack := rest }) ∨
      Cheaper u (Registry.resume queued (.walkSockets (some k)) { u with stack := rest }) := by
  simp only [Registry.resume]
  split
  · next hk => exact .inl ((Still.restack _).shrinks (.socketClose hk))
  · obtain ⟨m, hle, hm⟩ := hl.ends (some k)
    refine .inr ⟨.restack _, fun w => (Still.restack _).lower hl
      [.walkStreams (some k) (u.sockets k).streams, .nextSocket k] hu rfl ?_⟩
    rintro a ⟨m', hm', ha⟩
    cases hm' with
    | @some _ m' hm' =>
      have ha : (2 * u.nstreams + 4) * (m' + 1) + 1 ≤ a := ha
      rw [Nat.mul_succ] at ha
      refine ⟨2 * m + 1 + ((2 * u.nstreams + 4) * m' + 2), by omega, 2 * m + 1, _, ⟨m, hm, Nat.le_refl _⟩,
        ⟨(2 * u.nstreams + 4) * m' + 2, 0, ⟨m', .some hm', Nat.le_refl _⟩, trivial, Nat.le_refl _⟩,
        Nat.le_refl _⟩

/-- The stream the walk stands at closes, or not yet. -/
theorem Enlisted.walkStreams_lower (hl : Enlisted u none) (queued : Bool) {o : Option ℕ}
    (hu : u.stack = .walkStreams o (some s) :: rest) :
    Shrinks u (Registry.resume queued (.walkStreams o (some s)) { u with stack := rest }) ∨
      Cheaper u (Registry.resume queued (.walkStreams o (some s)) { u with stack := rest }) := by
  have hmem : .walkStreams o (some s) ∈ u.stack := by rw [hu]; exact List.mem_cons_self
  have hlnext : Enlisted (State.push (.nextStream o s) { u with stack := rest }) (some s) := by
    obtain ⟨xs, hlx⟩ := hl
    exact ⟨xs, (hlx.exempt s).replace hu ⟨hlx.fits _ hmem, fun _ => .inr rfl⟩ rfl rfl⟩
  have hnext : Cheaper u (State.push (.nextStream o s) { u with stack := rest }) := by
    refine hl.cheaper_push hu ?_
    rintro a ⟨m, hm, ha⟩
    cases hm with
    | @some _ m hm => exact ⟨a - 1, by omega, m, .some hm, by omega⟩
  exact hnext.andThen hlnext (streamDestroy_still hlnext queued (hl.walk_lt hmem))

end

/-- A step ahead closes something, or the stack has less to pay. -/
theorem Ahead.lower (h : Ahead u v) (hr : Reach u) (hs : ClosesApart v) : Shrinks u v ∨ Cheaper u v := by
  have hl := hr.enlisted
  cases h with
  | returned hu => exact .inr (hl.cheaper_pop hu fun _ ha => ha)
  | sent s hu he => exact .inl (.closeStreamInternal (f := fun x => { x with destroyQueued := false }) rfl)
  | @resume f rest queued hu hf =>
    have hmem : f ∈ u.stack := by rw [hu]; exact List.mem_cons_self
    cases f with
    | user => exact absurd rfl hf
    | clearing s => exact .inr (hl.clearing_cheaper queued hu)
    | relaying s i => exact hl.relaying_lower queued hu
    | closingSocket k =>
      obtain ⟨ks, hks⟩ := hr.toured (hs.suffix ⟨[], rfl⟩)
      have hin : k ∈ ks := hks.mem.mpr ⟨(hks.shutting hmem).1, .inr hmem⟩
      have hstill : Still u (Registry.resume queued (.closingSocket k) { u with stack := rest }) :=
        ⟨rfl, rfl, rfl, rfl, rfl, rfl, fun hm => hm.remove hks.rep hin, fun _ hc => ⟨hc, Nat.le_refl _⟩, [], rfl⟩
      exact .inr ⟨hstill, fun w => hstill.lower hl [] hu rfl fun a ha => ⟨0, ha, trivial⟩⟩
    | walkSockets n =>
      cases n with
      | none =>
        refine .inr (hl.cheaper_pop hu ?_)
        rintro a ⟨m, -, ha⟩
        exact Nat.le_trans (Nat.le_add_left ..) ha
      | some k => exact hl.walkSockets_lower queued hu
    | nextSocket k =>
      refine .inr (hl.cheaper_push (g := .walkSockets (u.socketLink.next k)) hu ?_)
      rintro a ⟨m, hm, ha⟩
      cases hm with
      | some hm => exact ⟨a - 1, by omega, m, hm, by omega⟩
    | walkStreams o n =>
      cases n with
      | none =>
        refine .inr (hl.cheaper_pop hu ?_)
        rintro a ⟨m, -, ha⟩
        exact Nat.le_trans (Nat.le_add_left ..) ha
      | some s => exact hl.walkStreams_lower queued hu
    | nextStream o s =>
      refine .inr (hl.cheaper_push (g := .walkStreams o (u.streamLink.next s)) hu ?_)
      rintro a ⟨m, hm, ha⟩
      cases hm with
      | some hm => exact ⟨a - 1, by omega, m, hm, by omega⟩
    | walkFree =>
      obtain ⟨m, hle, hm⟩ := hl.ends none
      refine .inr (hl.cheaper_push (g := .walkStreams none u.freeStreams) hu fun a ha => ?_)
      have ha : 2 * u.nstreams + 2 ≤ a := ha
      exact ⟨a - 1, by omega, m, hm, by omega⟩

/-! ### Runs after a teardown -/

/-- Less is open, or the stack has less to pay. -/
def Lower (u v : State) : Prop :=
  v.fleet.left < u.fleet.left ∨
    v.fleet.left = u.fleet.left ∧ ∀ w, Pays u.fleet u.stack w → ∃ w' < w, Pays v.fleet v.stack w'

/-- What is closed is no longer open. -/
theorem Shrinks.left (h : Shrinks u v) (hr : Reach v) (hs : ClosesApart v) : v.fleet.left < u.fleet.left := by
  have hle := hr.closes_le hs
  have hmore := h.more
  unfold Fleet.left
  show v.nstreams + v.nsockets - (v.roster.closes.length + v.fleet.shuts.length) <
    u.nstreams + u.nsockets - (u.roster.closes.length + u.fleet.shuts.length)
  have hle : v.roster.closes.length + v.fleet.shuts.length ≤ v.nstreams + v.nsockets := hle
  rw [h.nstreams, h.nsockets] at hle ⊢
  omega

theorem Still.left (h : Still u v) : v.fleet.left = u.fleet.left := by
  unfold Fleet.left
  show v.nstreams + v.nsockets - (v.roster.closes.length + v.fleet.shuts.length) =
    u.nstreams + u.nsockets - (u.roster.closes.length + u.fleet.shuts.length)
  rw [h.nstreams, h.nsockets, h.closes, h.shuts]

/-- What comes in between keeps the flag, extends the log, and leaves no more
to do. -/
theorem asides_lower (h : Relation.ReflTransGen Aside u v) (hr : Reach u) (ht : u.teardown = true) :
    (Reach v ∧ v.teardown = true ∧ ∃ l, v.log = l ++ u.log) ∧ (ClosesApart v →
      v.fleet.left < u.fleet.left ∨
        v.fleet.left = u.fleet.left ∧ ∀ w, Pays u.fleet u.stack w → Pays v.fleet v.stack w) := by
  induction h with
  | refl => exact ⟨⟨hr, ht, [], rfl⟩, fun _ => .inr ⟨rfl, fun _ => id⟩⟩
  | tail _ hstep ih =>
    obtain ⟨⟨hrv, htv, l, hl⟩, hlow⟩ := ih
    have hrw := hrv.step hstep.step
    rcases hstep.still hrv.enlisted htv with h | ⟨h, hst⟩
    · obtain ⟨l', hl'⟩ := h.log
      refine ⟨⟨hrw, h.teardown.trans htv, l' ++ l, by rw [hl', hl, List.append_assoc]⟩, fun hs => .inl ?_⟩
      have hlt := h.left hrw hs
      rcases hlow (hs.suffix h.log) with hlt' | ⟨heq, -⟩ <;> omega
    · obtain ⟨l', hl'⟩ := h.log
      refine ⟨⟨hrw, h.teardown.trans htv, l' ++ l, by rw [hl', hl, List.append_assoc]⟩, fun hs => ?_⟩
      rcases hlow (hs.suffix h.log) with hlt | ⟨heq, hpays⟩
      · exact .inl (h.left ▸ hlt)
      · refine .inr ⟨h.left.trans heq, fun w hw => ?_⟩
        rw [hst]
        exact h.pays hrv.enlisted (fun _ hf => hf) (hpays w hw)

theorem Onward.lower (h : Onward u v) (hr : Reach u) (ht : u.teardown = true) (hs : ClosesApart v) :
    Reach v ∧ v.teardown = true ∧ Lower u v := by
  obtain ⟨x, hasides, hahead⟩ := h
  obtain ⟨⟨hrx, htx, -⟩, hlow⟩ := asides_lower hasides hr ht
  have hrv := hrx.step hahead.step
  rcases hahead.lower hrx hs with h | ⟨h, hpays⟩
  · refine ⟨hrv, h.teardown.trans htx, .inl ?_⟩
    have hlt := h.left hrv hs
    rcases hlow (hs.suffix h.log) with hlt' | ⟨heq, -⟩ <;> omega
  · refine ⟨hrv, h.teardown.trans htx, ?_⟩
    rcases hlow (hs.suffix h.log) with hlt | ⟨heq, hkept⟩
    · exact .inl (h.left ▸ hlt)
    · exact .inr ⟨h.left.trans heq, fun w hw => hpays w (hkept w hw)⟩

/-- Everything is closed, and no function is running. -/
structure State.Done (u : State) : Prop where
  stack : u.stack = []
  streams : ∀ s < u.nstreams, (u.streams s).closed = true
  sockets : ∀ k < u.nsockets, (u.sockets k).closed = true
  list : u.socketList = none

/-- The stack goes on until it is empty, and then a destroy packet is sent, or
nothing is open any more. -/
theorem TornDown.ahead (h : TornDown u) (ht : u.teardown = true) : u.Done ∨ ∃ v, Ahead u v := by
  cases hst : u.stack with
  | cons f rest =>
    right
    by_cases hf : f = .user
    · exact ⟨_, .returned (hf ▸ hst)⟩
    · exact ⟨_, .resume false hst hf⟩
  | nil =>
    by_cases hopen : ∃ s < u.nstreams, (u.streams s).closed = false
    · obtain ⟨s, hs, hc⟩ := hopen
      exact .inr ⟨_, .sent s hst ⟨hs, h.open_streams ht hst s hs hc⟩⟩
    · have hstreams : ∀ s < u.nstreams, (u.streams s).closed = true := fun s hs =>
        Bool.not_eq_false _ |>.mp fun hc => hopen ⟨s, hs, hc⟩
      have hsockets : ∀ k < u.nsockets, (u.sockets k).closed = true := by
        refine fun k hk => Bool.not_eq_false _ |>.mp fun ho => ?_
        obtain ⟨s, hs, hc, -⟩ := h.open_sockets ht hst k hk ho
        exact hopen ⟨s, hs, hc⟩
      obtain ⟨ks, hrep, hmem⟩ := h.list hst
      have hnil : ks = [] := List.eq_nil_iff_forall_not_mem.mpr fun k hk => by
        obtain ⟨hlt, ho⟩ := (hmem k).mp hk
        rw [hsockets k hlt] at ho
        cases ho
      exact .inl ⟨hst, hstreams, hsockets, hrep.head.trans (congrArg List.head? hnil)⟩

/-- A run that goes on comes to its end. -/
theorem Reach.done (h : Reach u) (ht : u.teardown = true) (run : ℕ → State) (h0 : run 0 = u)
    (hs : ∀ n, ClosesApart (run n)) (hrun : ∀ n, (run n).Done ∨ Onward (run n) (run (n + 1))) :
    ∃ n, (run n).Done := by
  obtain ⟨w, hw⟩ := h.pays (h0 ▸ hs 0)
  -- by induction on what is open, and for that on what the stack has to pay
  induction hleft : u.fleet.left using Nat.strongRecOn generalizing u run w with
  | ind left ihl =>
    induction w using Nat.strongRecOn generalizing u run with
    | ind w ihw =>
      rcases hrun 0 with hdone | hon
      · exact ⟨0, hdone⟩
      rw [h0] at hon
      obtain ⟨hr, ht', hlow⟩ := hon.lower h ht (hs 1)
      have hlater : (∃ n, (run (n + 1)).Done) → ∃ n, (run n).Done := fun ⟨n, hn⟩ => ⟨n + 1, hn⟩
      refine hlater ?_
      rcases hlow with hlt | ⟨heq, hpays⟩
      · obtain ⟨w', hw'⟩ := hr.pays (hs 1)
        exact ihl _ (hleft ▸ hlt) hr ht' (fun n => run (n + 1)) rfl (fun n => hs (n + 1))
          (fun n => hrun (n + 1)) w' hw' rfl
      · obtain ⟨w', hlt, hw'⟩ := hpays w hw
        exact ihw w' hlt hr ht' (fun n => run (n + 1)) rfl (fun n => hs (n + 1))
          (fun n => hrun (n + 1)) hw' (heq.trans hleft)

/-- In every run whose closes of a socket lie apart each stream and each socket
is closed once. A call of `udx_teardown` is never stuck, and in every such run
that goes on after it the stack empties and, as the destroy packets are sent,
everything is closed. -/
theorem tornDown (h : Reach u) (hs : ClosesApart u) : TornDown u ∧
    (u.teardown = true → u.Done ∨ ∃ v, Ahead u v) ∧
    (u.atUser → (runCall .teardown u).teardown = true ∧
      ∀ run : ℕ → State, run 0 = runCall .teardown u → (∀ n, ClosesApart (run n)) →
        (∀ n, (run n).Done ∨ Onward (run n) (run (n + 1))) → ∃ n, (run n).Done) := by
  have htorn := h.tornOnce hs
  refine ⟨htorn, htorn.ahead, fun hu => ⟨rfl, fun run h0 hs' hrun => ?_⟩⟩
  have hcall : Reach (runCall .teardown u) := h.step (.call .teardown hu trivial)
  exact hcall.done rfl _ h0 hs' hrun

end

/-- Two streams of one socket that relay to each other. -/
def mutualTeardown : State :=
  runCall .teardown (runCall (.relayTo 1 0) (runCall (.relayTo 0 1) (runCall (.connect 1 0)
    (runCall (.connect 0 0) (runCall (.streamInit 2) (runCall (.streamInit 1)
      (runCall .socketInit {})))))))

/-- The close of each of them closes the socket. -/
theorem tornDown_mutual : ∃ u, Reach u ∧ u.log.filterMap LogEntry.shuts = [0, 0] ∧
    ¬ TornDown u := by
  have hreach : Reach mutualTeardown := by
    refine .step (.step (.step (.step (.step (.step (.step (.step .init
      (.call .socketInit (.inl rfl) trivial)) (.call (.streamInit 1) (.inl rfl) trivial))
      (.call (.streamInit 2) (.inl rfl) trivial)) (.call (.connect 0 0) (.inl rfl) ?_))
      (.call (.connect 1 0) (.inl rfl) ?_)) (.call (.relayTo 0 1) (.inl rfl) ?_))
      (.call (.relayTo 1 0) (.inl rfl) ?_)) (.call .teardown (.inl rfl) trivial)
    · exact ⟨Nat.zero_lt_two, Nat.zero_lt_one, rfl⟩
    · exact ⟨Nat.one_lt_two, Nat.zero_lt_one, rfl⟩
    · exact ⟨Nat.zero_lt_two, Nat.one_lt_two⟩
    · exact ⟨Nat.one_lt_two, Nat.zero_lt_two⟩
  have hshuts : (proceed^[24] mutualTeardown).log.filterMap LogEntry.shuts = [0, 0] := rfl
  refine ⟨proceed^[24] mutualTeardown, .proceed hreach 24, hshuts, fun h => ?_⟩
  have hnodup := h.sockets.1
  rw [hshuts] at hnodup
  simp at hnodup

/-- Stream 0 on socket 1; streams 1 and 2 on socket 0, of which 1 relays to 0;
stream 3 on no socket. -/
def fourStreams : State :=
  runCall (.relayTo 1 0) (runCall (.connect 2 0) (runCall (.connect 1 0) (runCall (.connect 0 1)
    (runCall (.streamInit 4) (runCall (.streamInit 3) (runCall (.streamInit 2) (runCall (.streamInit 1)
      (runCall .socketInit (runCall .socketInit {})))))))))

/-- The stack goes on; libuv queues the destroy packet of stream 2, and sends it
when the stack is empty. -/
def forward (u : State) : State :=
  match u.stack with
  | [] => if (u.streams 2).destroyQueued then runEvent (.destroySent 2) u else u
  | f :: rest =>
    if f = .user then { u with stack := rest }
    else resume (f == .walkStreams (some 0) (some 2)) f { u with stack := rest }

def fourTeardown (n : ℕ) : State := forward^[n] (runCall .teardown fourStreams)

theorem fourStreams_reach : Reach fourStreams := by
  refine .step (.step (.step (.step (.step (.step (.step (.step (.step (.step .init
    (.call .socketInit (.inl rfl) trivial)) (.call .socketInit (.inl rfl) trivial))
    (.call (.streamInit 1) (.inl rfl) trivial)) (.call (.streamInit 2) (.inl rfl) trivial))
    (.call (.streamInit 3) (.inl rfl) trivial)) (.call (.streamInit 4) (.inl rfl) trivial))
    (.call (.connect 0 1) (.inl rfl) ?_)) (.call (.connect 1 0) (.inl rfl) ?_))
    (.call (.connect 2 0) (.inl rfl) ?_)) (.call (.relayTo 1 0) (.inl rfl) ?_)
  · exact ⟨Nat.succ_pos 3, Nat.one_lt_two, rfl⟩
  · exact ⟨Nat.lt_add_left 2 Nat.one_lt_two, Nat.two_pos, rfl⟩
  · exact ⟨Nat.lt_add_left 1 (Nat.lt_succ_self 2), Nat.two_pos, rfl⟩
  · exact ⟨Nat.lt_add_left 2 Nat.one_lt_two, Nat.succ_pos 3⟩

theorem forward_ahead {u : State} (h2 : 2 < u.nstreams) (h : u.stack ≠ [] ∨ (u.streams 2).destroyQueued = true) :
    Ahead u (forward u) := by
  unfold forward
  cases hu : u.stack with
  | nil =>
    have hq := h.resolve_left fun hne => hne hu
    dsimp only
    rw [if_pos hq]
    exact .sent 2 hu ⟨h2, hq⟩
  | cons f rest =>
    dsimp only
    split
    · next hf => exact .returned (hf ▸ hu)
    · next hf => exact .resume _ hu hf

theorem fourTeardown_done : (fourTeardown 40).Done :=
  ⟨by decide +kernel, by decide +kernel, by decide +kernel, by decide +kernel⟩

/-- It stays as it is then. -/
theorem fourTeardown_later (n : ℕ) : fourTeardown (40 + n) = fourTeardown 40 := by
  induction n with
  | zero => rfl
  | succ n ih =>
    have hnext : fourTeardown (40 + (n + 1)) = forward (fourTeardown (40 + n)) := Function.iterate_succ_apply' ..
    rw [hnext, ih]
    unfold forward
    rw [fourTeardown_done.stack]
    exact if_neg (by decide +kernel)

/-- No entry is that of a socket closed inside another close. -/
def LogEntry.apart : LogEntry → Bool
  | .socketClosed _ (some _) => false
  | _ => true

theorem ClosesApart.of_all {u : State} (h : u.log.all LogEntry.apart = true) : ClosesApart u := by
  intro k inside hm
  have hapart := List.all_eq_true.mp h _ hm
  cases inside with
  | none => rfl
  | some f => cases hapart

/-- Every stream and every socket is closed once, the last ones when the destroy
packet has been sent. -/
theorem tornDown_four : TornDown (fourTeardown 40) ∧ (∃ n, (fourTeardown n).Done) ∧
    (fourTeardown 32).stack = [] ∧ ((fourTeardown 32).streams 2).destroyQueued = true ∧
    (fourTeardown 40).log.filterMap LogEntry.closes = [2, 3, 1, 0] ∧
    (fourTeardown 40).log.filterMap LogEntry.shuts = [0, 1] := by
  have hsound : ∀ n, ClosesApart (fourTeardown n) := by
    intro n
    by_cases hn : n ≤ 40
    · have hall : ∀ n ≤ 40, (fourTeardown n).log.all LogEntry.apart = true := by decide +kernel
      exact .of_all (hall n hn)
    · obtain ⟨m, rfl⟩ := Nat.exists_eq_add_of_le (Nat.le_of_not_le hn)
      rw [fourTeardown_later]
      exact .of_all (by decide +kernel)
  have hstep : ∀ n < 40, Ahead (fourTeardown n) (fourTeardown (n + 1)) := by
    intro n hn
    have hlive : ∀ n < 40, 2 < (fourTeardown n).nstreams ∧
        ((fourTeardown n).stack ≠ [] ∨ ((fourTeardown n).streams 2).destroyQueued = true) := by decide +kernel
    have hnext : fourTeardown (n + 1) = forward (fourTeardown n) := Function.iterate_succ_apply' ..
    rw [hnext]
    exact forward_ahead (hlive n hn).1 (hlive n hn).2
  have hrun : ∀ n, (fourTeardown n).Done ∨ Onward (fourTeardown n) (fourTeardown (n + 1)) := by
    intro n
    by_cases hn : n < 40
    · exact .inr ⟨_, .refl, hstep n hn⟩
    · obtain ⟨m, rfl⟩ := Nat.exists_eq_add_of_le (Nat.le_of_not_lt hn)
      rw [fourTeardown_later]
      exact .inl fourTeardown_done
  have hreach : ∀ n ≤ 40, Reach (fourTeardown n) := by
    intro n hn
    induction n with
    | zero => exact fourStreams_reach.step (.call .teardown (.inl rfl) trivial)
    | succ n ih => exact (ih (by omega)).step (hstep n (by omega)).step
  have hdone := (tornDown fourStreams_reach (.of_all rfl)).2.2 (.inl rfl)
  exact ⟨(tornDown (hreach 40 (Nat.le_refl _)) (hsound 40)).1, hdone.2 fourTeardown rfl hsound hrun,
    by decide +kernel, by decide +kernel, by decide +kernel, by decide +kernel⟩

end Udx.Registry
