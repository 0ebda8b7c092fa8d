/-
# Teardown

`udx_teardown` destroys all streams; a socket is closed when the walk over the
sockets finds it empty, or when its last stream closes after that. A walk
stands at a socket while callbacks run, which may close that socket, or
others. In every run where a socket is closed only while no close of it, or of
a stream of it, is in progress, every socket and every stream is closed once:
the walks come to every socket that is left, and no walk comes to one that has
been closed.

Key definitions: `Fleet`, `Torn`, `ClosesApart`, `TornDown`.
Key theorem: `Reach.tornOnce`.
-/
import Udx.Lists

namespace Udx.Registry

open Serial

/-! ### Frames over frames -/

/-- A frame of the walk over the sockets. -/
def Frame.strolls : Frame → Bool
  | .walkSockets _ | .nextSocket _ => true
  | _ => false

theorem Frame.closing_of_list {f : Frame} {o : Option ℕ} (h : f.list = some o) :
    f.closing = none := by
  cases f with
  | clearing s => cases h
  | relaying s i => cases h
  | _ => rfl

/-- Frame `f` may be right above frame `g`. -/
def Over (f : Frame) : Frame → Prop
  | .nextSocket k => f.list = some (some k) ∨ f = .closingSocket k
  | .nextStream o a => f.closing = some a ∨ ∃ k, o = some k ∧ f = .closingSocket k
  | .walkSockets _ | .walkStreams _ _ => False
  | _ => True

def Adjacent (st : List Frame) : Prop := ∀ q f g below, st = q ++ f :: g :: below → Over f g

/-- Above the walk that stands at socket `k` there is no callback. -/
def Quiet (k : ℕ) (q : List Frame) : Prop := q = [] ∨ ∃ f, q = [f] ∧ f.list = some (some k)

section

variable {f g : Frame} {st q below : List Frame} {k : ℕ}

/-- Over a frame that any frame may be over. -/
theorem Over.any (h : Over f g) (hl : f.list = none) (hc : f.closing = none)
    (hk : ∀ k, f ≠ .closingSocket k) (f' : Frame) : Over f' g := by
  cases g with
  | nextSocket k =>
    rcases h with h | h
    · rw [hl] at h
      cases h
    · exact absurd h (hk k)
  | nextStream o a =>
    rcases h with h | ⟨k, -, h⟩
    · rw [hc] at h
      cases h
    · exact absurd h (hk k)
  | walkSockets n => exact h.elim
  | walkStreams o n => exact h.elim
  | _ => trivial

theorem split_cons (h : g :: st = q ++ f :: below) :
    (q = [] ∧ f = g ∧ below = st) ∨ ∃ q', q = g :: q' ∧ st = q' ++ f :: below := by
  cases q with
  | nil =>
    obtain ⟨rfl, rfl⟩ := List.cons.inj h
    exact .inl ⟨rfl, rfl, rfl⟩
  | cons x q' =>
    obtain ⟨rfl, hst⟩ := List.cons.inj h
    exact .inr ⟨q', rfl, hst⟩

theorem Adjacent.push (h : Adjacent st) (hf : ∀ g rest, st = g :: rest → Over f g) :
    Adjacent (f :: st) := by
  intro q f' g below he
  rcases split_cons he with ⟨-, rfl, hbelow⟩ | ⟨q', -, hst⟩
  · exact hf g below hbelow.symm
  · exact h q' f' g below hst

theorem Adjacent.pop (h : Adjacent (f :: st)) : Adjacent st := fun q f' g below he =>
  h (f :: q) f' g below (by rw [he]; rfl)

/-- Frames that cannot have another above them are on top. -/
theorem Adjacent.top (h : Adjacent st) (hg : g ∈ st) (hno : ∀ f, ¬ Over f g) :
    ∃ rest, st = g :: rest := by
  obtain ⟨q, below, rfl⟩ := List.append_of_mem hg
  rcases List.eq_nil_or_concat q with rfl | ⟨q', f, rfl⟩
  · exact ⟨below, rfl⟩
  · exact absurd (h q' f g below (by simp)) (hno f)

theorem not_quiet_cons (hf : f.list = none) (q : List Frame) : ¬ Quiet k (f :: q) := by
  rintro (h | ⟨g, h, hg⟩)
  · cases h
  · obtain ⟨rfl, -⟩ := List.cons.inj h
    rw [hf] at hg
    cases hg

/-- Where nothing on the stack closes socket `k` or a stream of it, the walks
that stand at it are on top. -/
theorem Adjacent.quiet (h : Adjacent st) {socket : ℕ → Option ℕ}
    (hsocket : ∀ a, .nextStream (some k) a ∈ st → socket a = some k)
    (hk : .closingSocket k ∉ st)
    (hno : ∀ f ∈ st, ∀ s, f.closing = some s → socket s ≠ some k)
    (hst : st = q ++ .nextSocket k :: below) : Quiet k q := by
  rcases List.eq_nil_or_concat q with rfl | ⟨q', f, rfl⟩
  · exact .inl rfl
  have hf : f ∈ st := by rw [hst]; simp
  rcases h q' f (.nextSocket k) below (by rw [hst]; simp) with hlist | rfl
  · refine .inr ⟨f, ?_, hlist⟩
    rcases List.eq_nil_or_concat q' with rfl | ⟨q'', g, rfl⟩
    · rfl
    -- a frame above one that walks the streams of the socket closes one of them
    have hover := h q'' g f (.nextSocket k :: below) (by rw [hst]; simp)
    cases f with
    | nextStream o a =>
      obtain rfl : o = some k := Option.some.inj hlist
      rcases hover with hc | ⟨k', hk', rfl⟩
      · exact absurd (hsocket a hf) (hno g (by rw [hst]; simp) a hc)
      · obtain rfl := Option.some.inj hk'
        exact absurd (by rw [hst]; simp) hk
    | walkStreams o n => cases hover
    | walkFree => cases hlist
    | _ => cases hlist
  · exact absurd hf hk

end

/-! ### Sockets -/

/-- The part of the state that the closing of sockets is about. -/
structure Fleet where
  r : Roster
  link : Link
  head : Option ℕ
  /-- The sockets that closed, newest first. -/
  shuts : List ℕ

/-- The socket that a log entry says was closed. -/
def LogEntry.shuts : LogEntry → Option ℕ
  | .socketClosed k _ => some k
  | _ => none

def State.fleet (u : State) : Fleet :=
  { r := u.roster, link := u.socketLink, head := u.socketList,
    shuts := u.log.filterMap LogEntry.shuts }

namespace Roster

/-- The open streams of socket `j` are being destroyed, or a walk over them is
under way. -/
def Handled (r : Roster) (j : ℕ) : Prop :=
  (∀ s < r.nstreams, r.closed s = false → r.socket s = some j → r.destroying s = true) ∨
    ∃ f ∈ r.stack, f.list = some (some j)

/-- Socket `j` has a stream that is open, or whose close is in progress, or is
in the callbacks of its own close. -/
def Served (r : Roster) (j : ℕ) : Prop :=
  (∃ s < r.nstreams, r.closed s = false ∧ r.socket s = some j) ∨
    ∃ f ∈ r.stack, f = .closingSocket j ∨ ∃ s, f.closing = some s ∧ r.socket s = some j

/-- A walk has done with socket `j`; but `x`, which is next to be dealt with. -/
def Ready (r : Roster) (x : Option ℕ) (j : ℕ) : Prop := x = some j ∨ r.Handled j ∧ r.Served j

/-- The frames that a walk counts on stay on the stack. -/
theorem Ready.restack {r : Roster} {x x' : Option ℕ} {j : ℕ} {st : List Frame} (h : r.Ready x j)
    (hx : x = none ∨ x = x') (hst : ∀ f ∈ r.stack, (f.list = some (some j) ∨
      f = .closingSocket j ∨ ∃ s, f.closing = some s ∧ r.socket s = some j) → f ∈ st) :
    { r with stack := st }.Ready x' j := by
  rcases h with h | ⟨hh, hs⟩
  · rcases hx with rfl | rfl
    · cases h
    · exact .inl h
  · refine .inr ⟨hh.imp_right ?_, hs.imp_right ?_⟩
    · rintro ⟨f, hf, hl⟩
      exact ⟨f, hst f hf (.inl hl), hl⟩
    · rintro ⟨f, hf, hk | ⟨s, hs, hj⟩⟩
      · exact ⟨f, hst f hf (.inr (.inl hk)), .inl hk⟩
      · exact ⟨f, hst f hf (.inr (.inr ⟨s, hs, hj⟩)), .inr ⟨s, hs, hj⟩⟩

end Roster

namespace Fleet

/-- The walk stands at socket `k` of the list. -/
def Pinned (p : Fleet) (ks : List ℕ) (x : Option ℕ) (k : ℕ) : Prop :=
  ∃ pre post, ks = pre ++ k :: post ∧ ∀ j ∈ pre ++ [k], p.r.Ready x j

/-- The walk stands at socket `k`, below the frames `q`: the socket is in the
list, or it left the list, and nothing else happens before the walk goes on. -/
def Next (p : Fleet) (ks : List ℕ) (x : Option ℕ) (k : ℕ) (q : List Frame) : Prop :=
  p.Pinned ks x k ∨ k ∉ ks ∧ Quiet k q ∧
    ∃ pre post, ks = pre ++ post ∧ p.link.next k = post.head? ∧ ∀ j ∈ pre, p.r.Ready x j

end Fleet

/-- The list of sockets is `ks`, and the walks over it pass no socket but
`x`. -/
structure Torn (p : Fleet) (ks : List ℕ) (x : Option ℕ) : Prop where
  rep : Link.Rep p.link p.head ks
  mem : ∀ {k}, k ∈ ks ↔
    k < p.r.nsockets ∧ (p.r.shut k = false ∨ .closingSocket k ∈ p.r.stack)
  shutting : ∀ {k}, .closingSocket k ∈ p.r.stack → k < p.r.nsockets ∧ p.r.shut k = true
  once : ∀ k, p.r.stack.count (.closingSocket k) ≤ 1
  /-- The socket of a stream whose close is in progress is open. -/
  closing : ∀ {f s k}, f ∈ p.r.stack → f.closing = some s → p.r.socket s = some k →
    k < p.r.nsockets ∧ p.r.shut k = false
  adjacent : Adjacent p.r.stack
  next : ∀ {q k below}, p.r.stack = q ++ .nextSocket k :: below → p.Next ks x k q
  /-- Above a walk that stands at a socket in the callbacks of its close there
  is no other callback. -/
  behind : ∀ {q k rest}, p.r.stack = q ++ .closingSocket k :: rest →
    ∀ {q' below}, rest = q' ++ .nextSocket k :: below → Quiet k q'
  walk : ∀ {n}, .walkSockets n ∈ p.r.stack →
    ∃ pre post, ks = pre ++ post ∧ n = post.head? ∧ ∀ j ∈ pre, p.r.Ready x j
  cover : p.r.teardown = true → (∀ j ∈ ks, p.r.Ready x j) ∨ ∃ f ∈ p.r.stack, f.strolls = true
  shuts : p.shuts.Nodup ∧ ∀ k, k ∈ p.shuts ↔ k < p.r.nsockets ∧ p.r.shut k = true

namespace Torn

variable {p : Fleet} {ks : List ℕ} {xs : Option ℕ → List ℕ} {e x x' : Option ℕ} {s k : ℕ}
  {f g : Frame} {rest : List Frame}

/-- Below a frame that walks no list, the walks stand at sockets of the list. -/
theorem pinned (h : Torn p ks x) (hs : p.r.stack = f :: rest) (hf : f.list = none)
    (hk : .nextSocket k ∈ rest) : p.Pinned ks x k := by
  obtain ⟨q, below, rfl⟩ := List.append_of_mem hk
  rcases h.next (show _ = (f :: q) ++ .nextSocket k :: below by rw [hs]; rfl) with hp | ⟨-, hq, -⟩
  · exact hp
  · exact absurd hq (not_quiet_cons hf q)

theorem next_of_pinned {st : List Frame} (h : ∀ k, .nextSocket k ∈ st → p.Pinned ks x k)
    {q below : List Frame} (hst : st = q ++ .nextSocket k :: below) : p.Next ks x k q :=
  .inl (h k (by rw [hst]; simp))

theorem pinned_imp {p' : Fleet} (hr : ∀ j ∈ ks, p.r.Ready x j → p'.r.Ready x' j)
    (h : p.Pinned ks x k) : p'.Pinned ks x' k := by
  obtain ⟨pre, post, rfl, hpre⟩ := h
  exact ⟨pre, post, rfl, fun j hj => hr j (by simp at hj ⊢; tauto) (hpre j hj)⟩

/-- A frame that closes no socket and walks no sockets replaces another. -/
theorem count_cons (hf : f ≠ .closingSocket k) (st : List Frame) :
    (f :: st).count (.closingSocket k) = st.count (.closingSocket k) :=
  List.count_cons_of_ne hf

/-- A stream closes. -/
theorem close (h : Torn p ks x) (hl : Listed p.r xs e) (hs : s ∈ xs (p.r.socket s)) (d : Bool)
    (htop : ∀ g rest, p.r.stack = g :: rest → Over (.clearing s) g) :
    Torn { p with r := p.r.close s d } ks x := by
  have hmem : ∀ {f}, f ∈ (p.r.close s d).stack ↔ f = .user ∨ f = .clearing s ∨ f ∈ p.r.stack := by
    intro f
    simp [Roster.close]
  have hold : ∀ {y}, y ≠ s → (p.r.close s d).closed y = p.r.closed y ∧
      (p.r.close s d).destroying y = p.r.destroying y := fun hy =>
    ⟨Function.update_of_ne hy .., Function.update_of_ne hy ..⟩
  have hself : (p.r.close s d).closed s = true := Function.update_self ..
  have hready : ∀ j, p.r.Ready x j → (p.r.close s d).Ready x j := by
    rintro j (hx | ⟨hh, hserved⟩)
    · exact .inl hx
    refine .inr ⟨hh.imp (fun hd y hy hc hj => ?_) ?_, ?_⟩
    · have hne : y ≠ s := by
        rintro rfl
        rw [hself] at hc
        cases hc
      rw [(hold hne).1] at hc
      rw [(hold hne).2]
      exact hd y hy hc hj
    · rintro ⟨f, hf, hfl⟩
      exact ⟨f, hmem.mpr (.inr (.inr hf)), hfl⟩
    · rcases hserved with ⟨y, hy, hc, hj⟩ | ⟨f, hf, hfj⟩
      · by_cases hys : y = s
        · subst hys
          exact .inr ⟨_, hmem.mpr (.inr (.inl rfl)), .inr ⟨y, rfl, hj⟩⟩
        · exact .inl ⟨y, hy, (hold hys).1.trans hc, hj⟩
      · exact .inr ⟨f, hmem.mpr (.inr (.inr hf)), hfj⟩
  -- the stream is open, so its socket is in the list, and no walk is past it
  have hpinned : ∀ k, .nextSocket k ∈ p.r.stack → p.Pinned ks x k := by
    intro k hk
    obtain ⟨q, below, hst⟩ := List.append_of_mem hk
    rcases h.next hst with hp | ⟨hout, rfl | ⟨f, rfl, hf⟩, -⟩
    · exact hp
    · rcases htop _ _ hst with hl | hl <;> cases hl
    · have hover := htop _ _ hst
      cases f with
      | nextStream o a =>
        obtain rfl : o = some k := Option.some.inj hf
        rcases hover with ha | ⟨k', -, hk'⟩
        · obtain rfl := Option.some.inj ha
          refine absurd (h.mem.mpr ?_) hout
          have hsocket : p.r.socket s = some k := hl.turn_socket (by rw [hst]; simp)
          rw [hsocket] at hs
          exact ⟨(hl.home hs).1, .inl (hl.home hs).2⟩
        · cases hk'
      | walkStreams o n => cases hover
      | walkFree => cases hf
      | _ => cases hf
  have hshutting : ∀ {k}, Frame.closingSocket k ∈ (p.r.close s d).stack ↔
      .closingSocket k ∈ p.r.stack := by
    intro k
    simp [hmem]
  refine ⟨h.rep, fun {k} => ?_, fun hk => h.shutting (hshutting.mp hk), fun k => ?_,
    fun {f y k} hf hy hk => ?_, ?_, fun {q k below} hst => ?_, fun {q k rest} hst => ?_,
    fun {n} hn => ?_, fun ht => ?_, h.shuts⟩
  · rw [h.mem, hshutting]
    exact Iff.rfl
  · refine Nat.le_trans (Nat.le_of_eq ?_) (h.once k)
    exact (count_cons (by simp) _).trans (count_cons (by simp) _)
  · rcases hmem.mp hf with rfl | rfl | hf
    · cases hy
    · obtain rfl := Option.some.inj hy
      have hk : p.r.socket s = some k := hk
      rw [hk] at hs
      exact hl.home hs
    · exact h.closing hf hy hk
  · exact ((h.adjacent.push htop).push fun g rest hg => by
      obtain ⟨rfl, -⟩ := List.cons.inj hg
      trivial)
  · refine next_of_pinned (fun k hk => pinned_imp (fun j _ => hready j) (hpinned k ?_)) hst
    rcases hmem.mp hk with hk | hk | hk
    · cases hk
    · cases hk
    · exact hk
  · rcases split_cons hst with ⟨-, hf, -⟩ | ⟨q', -, hst⟩
    · cases hf
    rcases split_cons hst with ⟨-, hf, -⟩ | ⟨q', -, hst⟩
    · cases hf
    · exact h.behind hst
  · rcases hmem.mp hn with hn | hn | hn
    · cases hn
    · cases hn
    · obtain ⟨pre, post, hks, hnp, hpre⟩ := h.walk hn
      exact ⟨pre, post, hks, hnp, fun j hj => hready j (hpre j hj)⟩
  · refine (h.cover ht).imp (fun hr j hj => hready j (hr j hj)) ?_
    rintro ⟨f, hf, hfs⟩
    exact ⟨f, hmem.mpr (.inr (.inr hf)), hfs⟩

/-- What streams do that does not concern the sockets they are on. -/
theorem of_roster (h : Torn p ks x) (hl : Listed p.r xs e) {r' : Roster}
    (hst : r'.stack = p.r.stack) (hn : r'.nsockets = p.r.nsockets) (hshut : r'.shut = p.r.shut)
    (ht : r'.teardown = p.r.teardown)
    (hsocket : ∀ {f s}, f ∈ p.r.stack → f.closing = some s → r'.socket s = p.r.socket s)
    (hready : p.r.teardown = true → ∀ j, p.r.Ready x j → r'.Ready x j) :
    Torn { p with r := r' } ks x := by
  refine ⟨h.rep, fun {k} => ?_, fun {k} hk => ?_, fun k => ?_, fun {f s k} hf hs hk => ?_, ?_,
    fun {q k below} hq => ?_, fun {q k rest} hq => ?_, fun {n} hm => ?_, fun ht' => ?_,
    h.shuts.1, fun k => ?_⟩
  · rw [hn, hshut, hst]
    exact h.mem
  · rw [hn, hshut]
    rw [hst] at hk
    exact h.shutting hk
  · rw [hst]
    exact h.once k
  · rw [hn, hshut]
    rw [hst] at hf
    exact h.closing hf hs ((hsocket hf hs).symm.trans hk)
  · rw [hst]
    exact h.adjacent
  · rw [hst] at hq
    have ht' := hl.tearing (f := .nextSocket k) (by rw [hq]; simp) rfl
    refine (h.next hq).imp (pinned_imp fun j _ => hready ht' j) ?_
    rintro ⟨hout, hquiet, pre, post, hks, hnext, hpre⟩
    exact ⟨hout, hquiet, pre, post, hks, hnext, fun j hj => hready ht' j (hpre j hj)⟩
  · rw [hst] at hq
    exact h.behind hq
  · rw [hst] at hm
    have ht' := hl.tearing hm rfl
    obtain ⟨pre, post, hks, hnp, hpre⟩ := h.walk hm
    exact ⟨pre, post, hks, hnp, fun j hj => hready ht' j (hpre j hj)⟩
  · rw [ht] at ht'
    rw [hst]
    exact (h.cover ht').imp_left fun hr j hj => hready ht' j (hr j hj)
  · rw [hn, hshut]
    exact h.shuts.2 k

/-- A frame on top goes, or goes on as another, that walks no list of streams. -/
theorem retop (h : Torn p ks x) (hl : Listed p.r xs e) (hs : p.r.stack = f :: rest) (hf : f.list = none)
    (hfk : ∀ k, f ≠ .closingSocket k) {l : List Frame}
    (hnew : l = [] ∨ ∃ g, l = [g] ∧ g.closing = f.closing ∧ (∀ k, g ≠ .closingSocket k) ∧
      g.strolls = false ∧ (∀ g' below, rest = g' :: below → Over f g' → Over g g'))
    (hready : p.r.teardown = true → ∀ j ∈ ks, p.r.Ready x j →
      { p.r with stack := l ++ rest }.Ready x' j)
    (hstroll : f.strolls = true → ∀ j ∈ ks, p.r.Ready x j) :
    Torn { p with r := { p.r with stack := l ++ rest } } ks x' := by
  have hmem : ∀ {g}, g ∈ rest → g ∈ p.r.stack := fun hg => hs ▸ List.mem_cons_of_mem _ hg
  have hback : ∀ {g}, g ∈ l ++ rest → g.strolls = true ∨ (∃ k, g = .closingSocket k) →
      g ∈ rest := by
    intro g hg hno
    rcases hnew with rfl | ⟨g', rfl, -, hk, hst, -⟩
    · exact hg
    · rcases List.mem_cons.mp hg with rfl | hg
      · rcases hno with hno | ⟨k, hno⟩
        · rw [hst] at hno
          cases hno
        · exact absurd hno (hk k)
      · exact hg
  have hclosingSocket : ∀ {k}, Frame.closingSocket k ∈ l ++ rest ↔ .closingSocket k ∈ p.r.stack := by
    intro k
    refine ⟨fun hm => hmem (hback hm (.inr ⟨k, rfl⟩)), fun hm => ?_⟩
    rw [hs] at hm
    rcases List.mem_cons.mp hm with he | hm
    · exact absurd he.symm (hfk k)
    · exact List.mem_append_right _ hm
  have htears : ∀ {g : Frame}, g ∈ rest → g.tears = true → p.r.teardown = true := fun hg hgt =>
    hl.tearing (hmem hg) hgt
  have hpinned : ∀ k, .nextSocket k ∈ l ++ rest →
      Fleet.Pinned { p with r := { p.r with stack := l ++ rest } } ks x' k := by
    intro k hk
    have hk := hback hk (.inl rfl)
    exact pinned_imp (hready (htears hk rfl)) (h.pinned hs hf hk)
  have hadj := h.adjacent
  rw [hs] at hadj
  refine ⟨h.rep, fun {k} => ?_, fun {k} hk => h.shutting (hclosingSocket.mp hk), fun k => ?_,
    fun {g s k} hg hgs hk => ?_, ?_, fun {q k below} hq => next_of_pinned hpinned hq,
    fun {q k rest'} hq => ?_, fun {n} hm => ?_, fun ht => ?_, h.shuts⟩
  · rw [h.mem, hclosingSocket]
  · have hcount := h.once k
    rw [hs, count_cons (hfk k)] at hcount
    refine Nat.le_trans (Nat.le_of_eq ?_) hcount
    rcases hnew with rfl | ⟨g, rfl, -, hk, -⟩
    · rfl
    · exact count_cons (hk k) rest
  · have hg' : ∃ f' ∈ p.r.stack, f'.closing = some s := by
      rcases hnew with rfl | ⟨g', rfl, hc, -⟩
      · exact ⟨g, hmem hg, hgs⟩
      · rcases List.mem_cons.mp hg with rfl | hg
        · exact ⟨f, by rw [hs]; exact List.mem_cons_self, hc.symm.trans hgs⟩
        · exact ⟨g, hmem hg, hgs⟩
    obtain ⟨f', hf', hfs⟩ := hg'
    exact h.closing hf' hfs hk
  · rcases hnew with rfl | ⟨g, rfl, -, -, -, hover⟩
    · exact hadj.pop
    · refine Adjacent.push hadj.pop fun g' below hb => hover g' below hb ?_
      have hb : rest = g' :: below := hb
      exact hadj [] f g' below (by rw [hb]; rfl)
  · have hrest : ∃ q', rest = q' ++ .closingSocket k :: rest' := by
      rcases hnew with rfl | ⟨g, rfl, -, hk, -⟩
      · exact ⟨q, hq⟩
      · rcases split_cons hq with ⟨-, he, -⟩ | ⟨q', -, hq⟩
        · exact absurd he.symm (hk k)
        · exact ⟨q', hq⟩
    obtain ⟨q', hq'⟩ := hrest
    exact fun {_ _} hb => h.behind (q := f :: q') (by rw [hs, hq']; rfl) hb
  · have hm := hback hm (.inl rfl)
    obtain ⟨pre, post, hks, hnp, hpre⟩ := h.walk (hmem hm)
    refine ⟨pre, post, hks, hnp, fun j hj => hready (htears hm rfl) j ?_ (hpre j hj)⟩
    rw [hks]
    exact List.mem_append_left _ hj
  · rcases h.cover ht with hr | ⟨g, hg, hgs⟩
    · exact .inl fun j hj => hready ht j hj (hr j hj)
    · rw [hs] at hg
      rcases List.mem_cons.mp hg with rfl | hg
      · exact .inl fun j hj => hready ht j hj (hstroll hgs j hj)
      · exact .inr ⟨g, List.mem_append_right _ hg, hgs⟩

/-- A walk over streams goes on, or is over. -/
theorem rewalk (h : Torn p ks x) (hs : p.r.stack = f :: rest) {o : Option ℕ} (hf : f.list = some o)
    {l : List Frame} (hnew : l = [] ∨ ∃ g, l = [g] ∧ g.list = some o)
    (hready : ∀ j ∈ ks, p.r.Ready x j → { p.r with stack := l ++ rest }.Ready x j) :
    Torn { p with r := { p.r with stack := l ++ rest } } ks x := by
  have hmem : ∀ {g}, g ∈ rest → g ∈ p.r.stack := fun hg => hs ▸ List.mem_cons_of_mem _ hg
  have hback : ∀ {g}, g ∈ l ++ rest → g.list = none → g ∈ rest := by
    intro g hg hno
    rcases hnew with rfl | ⟨g', rfl, hl⟩
    · exact hg
    · rcases List.mem_cons.mp hg with rfl | hg
      · rw [hl] at hno
        cases hno
      · exact hg
  have hmem' : ∀ {g : Frame}, g ∈ p.r.stack → g.list = none → g ∈ l ++ rest := by
    intro g hg hno
    rw [hs] at hg
    rcases List.mem_cons.mp hg with rfl | hg
    · rw [hf] at hno
      cases hno
    · exact List.mem_append_right _ hg
  have hlist : ∀ {g : Frame} {k : ℕ}, g.list = some o → g ≠ .closingSocket k ∧ g.closing = none ∧
      g.strolls = false := by
    intro g k hg
    cases g with
    | walkStreams o n => exact ⟨nofun, rfl, rfl⟩
    | nextStream o n => exact ⟨nofun, rfl, rfl⟩
    | walkFree => exact ⟨nofun, rfl, rfl⟩
    | _ => cases hg
  have hadj := h.adjacent
  rw [hs] at hadj
  refine ⟨h.rep, fun {k} => ?_, fun {k} hk => h.shutting (hmem (hback hk rfl)), fun k => ?_,
    fun {g s k} hg hgs hk => ?_, ?_, fun {q k below} hq => ?_, fun {q k rest'} hq => ?_,
    fun {n} hm => ?_, fun ht => ?_, h.shuts⟩
  · rw [h.mem]
    exact and_congr_right fun _ => or_congr_right
      ⟨fun hm => hmem' hm rfl, fun hm => hmem (hback hm rfl)⟩
  · have hcount := h.once k
    rw [hs, count_cons (hlist hf).1] at hcount
    refine Nat.le_trans (Nat.le_of_eq ?_) hcount
    rcases hnew with rfl | ⟨g, rfl, hg⟩
    · rfl
    · exact count_cons (hlist hg).1 rest
  · refine h.closing (hmem ?_) hgs hk
    rcases hnew with rfl | ⟨g', rfl, hl⟩
    · exact hg
    · rcases List.mem_cons.mp hg with rfl | hg
      · rw [(hlist (k := k) hl).2.1] at hgs
        cases hgs
      · exact hg
  · rcases hnew with rfl | ⟨g, rfl, hg⟩
    · exact hadj.pop
    · refine Adjacent.push hadj.pop fun g' below hb => ?_
      have hb : rest = g' :: below := hb
      have hover := hadj [] f g' below (by rw [hb]; rfl)
      cases g' with
      | nextSocket k =>
        rcases hover with hl | rfl
        · exact .inl (hg.trans (hf.symm.trans hl))
        · cases hf
      | nextStream o' a =>
        rcases hover with hc | ⟨k, -, rfl⟩
        · rw [(hlist (k := 0) hf).2.1] at hc
          cases hc
        · cases hf
      | walkSockets n => exact hover.elim
      | walkStreams o' n => exact hover.elim
      | _ => trivial
  · -- what is above a walk over sockets stays quiet
    have hold : ∀ {q'}, rest = q' ++ .nextSocket k :: below →
        Fleet.Next { p with r := { p.r with stack := l ++ rest } } ks x k (l ++ q') := by
      intro q' hq'
      refine (h.next (q := f :: q') (by rw [hs, hq']; rfl)).imp (pinned_imp hready) ?_
      rintro ⟨hout, hquiet, pre, post, hks, hnext, hpre⟩
      refine ⟨hout, ?_, pre, post, hks, hnext, fun j hj => hready j ?_ (hpre j hj)⟩
      · rcases hquiet with hq0 | ⟨f', hq0, hfl⟩
        · cases hq0
        · obtain ⟨rfl, rfl⟩ := List.cons.inj hq0
          rcases hnew with rfl | ⟨g, rfl, hg⟩
          · exact .inl rfl
          · exact .inr ⟨g, rfl, hg.trans (hf.symm.trans hfl)⟩
      · rw [hks]
        exact List.mem_append_left _ hj
    rcases hnew with rfl | ⟨g, rfl, hg⟩
    · exact hold hq
    · rcases split_cons hq with ⟨-, he, -⟩ | ⟨q', rfl, hq'⟩
      · rw [← he] at hg
        cases hg
      · exact hold hq'
  · have hrest : ∃ q', rest = q' ++ .closingSocket k :: rest' := by
      rcases hnew with rfl | ⟨g, rfl, hg⟩
      · exact ⟨q, hq⟩
      · rcases split_cons hq with ⟨-, he, -⟩ | ⟨q', -, hq⟩
        · exact absurd he.symm (hlist hg).1
        · exact ⟨q', hq⟩
    obtain ⟨q', hq'⟩ := hrest
    exact fun {_ _} hb => h.behind (q := f :: q') (by rw [hs, hq']; rfl) hb
  · obtain ⟨pre, post, hks, hnp, hpre⟩ := h.walk (hmem (hback hm rfl))
    refine ⟨pre, post, hks, hnp, fun j hj => hready j ?_ (hpre j hj)⟩
    rw [hks]
    exact List.mem_append_left _ hj
  · rcases h.cover ht with hr | ⟨g, hg, hgs⟩
    · exact .inl fun j hj => hready j hj (hr j hj)
    · refine .inr ⟨g, ?_, hgs⟩
      rw [hs] at hg
      rcases List.mem_cons.mp hg with rfl | hg
      · rw [(hlist (k := 0) hf).2.2] at hgs
        cases hgs
      · exact List.mem_append_right _ hg

/-- The walk over the sockets comes to a socket. -/
theorem visit (h : Torn p ks none) (hs : p.r.stack = .walkSockets (some k) :: rest) :
    Torn { p with r := { p.r with stack := .nextSocket k :: rest } } ks (some k) ∧ k ∈ ks := by
  have hmem : ∀ {g}, g ∈ rest → g ∈ p.r.stack := fun hg => hs ▸ List.mem_cons_of_mem _ hg
  obtain ⟨pre, post, hks, hhead, hpre⟩ := h.walk (n := some k) (by rw [hs]; exact List.mem_cons_self)
  obtain ⟨post, rfl⟩ : ∃ post', post = k :: post' := by
    cases post with
    | nil => cases hhead
    | cons a post => exact ⟨post, by rw [Option.some.inj hhead]⟩
  have hready : ∀ j, p.r.Ready none j →
      { p.r with stack := .nextSocket k :: rest }.Ready (some k) j := by
    refine fun j hj => hj.restack (.inl rfl) fun f hf hkeep => ?_
    rw [hs] at hf
    rcases List.mem_cons.mp hf with rfl | hf
    · rcases hkeep with hk | hk | hk
      · cases hk
      · cases hk
      · obtain ⟨s, hs, -⟩ := hk
        cases hs
    · exact List.mem_cons_of_mem _ hf
  have hpinned : ∀ k', .nextSocket k' ∈ Frame.nextSocket k :: rest →
      Fleet.Pinned { p with r := { p.r with stack := .nextSocket k :: rest } } ks (some k) k' := by
    intro k' hk'
    rcases List.mem_cons.mp hk' with he | hk'
    · obtain rfl := Frame.nextSocket.inj he
      refine ⟨pre, post, hks, fun j hj => ?_⟩
      rcases List.mem_append.mp hj with hj | hj
      · exact hready j (hpre j hj)
      · exact .inl (by rw [List.mem_singleton.mp hj])
    · exact pinned_imp (fun j _ => hready j) (h.pinned hs rfl hk')
  have hclosingSocket : ∀ {k'}, Frame.closingSocket k' ∈ Frame.nextSocket k :: rest ↔
      .closingSocket k' ∈ p.r.stack := by
    intro k'
    rw [hs]
    simp
  have hadj := h.adjacent
  rw [hs] at hadj
  refine ⟨⟨h.rep, fun {k'} => ?_, fun {k'} hk' => h.shutting (hclosingSocket.mp hk'), fun k' => ?_,
    fun {g s k'} hg hgs hk' => ?_, ?_, fun {q k' below} hq => next_of_pinned hpinned hq,
    fun {q k' rest'} hq => ?_, fun {n} hm => ?_, fun _ => .inr ?_, h.shuts⟩, by rw [hks]; simp⟩
  · rw [h.mem, hclosingSocket]
  · have hcount := h.once k'
    rw [hs, count_cons (f := .walkSockets (some k)) nofun] at hcount
    exact Nat.le_trans (Nat.le_of_eq (count_cons (f := .nextSocket k) nofun rest)) hcount
  · rcases List.mem_cons.mp hg with rfl | hg
    · cases hgs
    · exact h.closing (hmem hg) hgs hk'
  · refine hadj.pop.push fun g below hb => ?_
    exact (hadj [] _ g below (by rw [hb]; rfl)).any rfl rfl (fun _ he => by cases he) _
  · rcases split_cons hq with ⟨-, he, -⟩ | ⟨q', -, hq⟩
    · cases he
    · exact fun {_ _} hb => h.behind (q := .walkSockets (some k) :: q') (by rw [hs, hq]; rfl) hb
  · rcases List.mem_cons.mp hm with he | hm
    · cases he
    · obtain ⟨pre', post', hks', hnp, hpre'⟩ := h.walk (hmem hm)
      exact ⟨pre', post', hks', hnp, fun j hj => hready j (hpre' j hj)⟩
  · exact ⟨_, List.mem_cons_self, rfl⟩

/-- It goes on from a socket, which may have left the list. -/
theorem stroll (h : Torn p ks none) (hs : p.r.stack = .nextSocket k :: rest) :
    Torn { p with r := { p.r with stack := .walkSockets (p.link.next k) :: rest } } ks none := by
  have hmem : ∀ {g}, g ∈ rest → g ∈ p.r.stack := fun hg => hs ▸ List.mem_cons_of_mem _ hg
  have hwalk : ∃ pre post, ks = pre ++ post ∧ p.link.next k = post.head? ∧
      ∀ j ∈ pre, p.r.Ready none j := by
    rcases h.next (show _ = [] ++ .nextSocket k :: rest from hs) with
      ⟨pre, post, hks, hpre⟩ | ⟨-, -, hpost⟩
    · exact ⟨pre ++ [k], post, by rw [hks]; simp, h.rep.next hks, hpre⟩
    · exact hpost
  have hready : ∀ j, p.r.Ready none j →
      { p.r with stack := .walkSockets (p.link.next k) :: rest }.Ready none j := by
    refine fun j hj => hj.restack (.inl rfl) fun f hf hkeep => ?_
    rw [hs] at hf
    rcases List.mem_cons.mp hf with rfl | hf
    · rcases hkeep with hk | hk | hk
      · cases hk
      · cases hk
      · obtain ⟨s, hs, -⟩ := hk
        cases hs
    · exact List.mem_cons_of_mem _ hf
  have hclosingSocket : ∀ {k'}, Frame.closingSocket k' ∈ Frame.walkSockets (p.link.next k) :: rest ↔
      .closingSocket k' ∈ p.r.stack := by
    intro k'
    rw [hs]
    simp
  have hadj := h.adjacent
  rw [hs] at hadj
  refine ⟨h.rep, fun {k'} => ?_, fun {k'} hk' => h.shutting (hclosingSocket.mp hk'), fun k' => ?_,
    fun {g s k'} hg hgs hk' => ?_, ?_, fun {q k' below} hq => ?_,
    fun {q k' rest'} hq => ?_, fun {n} hm => ?_, fun _ => .inr ?_, h.shuts⟩
  · rw [h.mem, hclosingSocket]
  · have hcount := h.once k'
    rw [hs, count_cons (f := .nextSocket k) nofun] at hcount
    exact Nat.le_trans (Nat.le_of_eq (count_cons (f := .walkSockets _) nofun rest)) hcount
  · rcases List.mem_cons.mp hg with rfl | hg
    · cases hgs
    · exact h.closing (hmem hg) hgs hk'
  · refine hadj.pop.push fun g below hb => ?_
    exact (hadj [] _ g below (by rw [hb]; rfl)).any rfl rfl (fun _ he => by cases he) _
  · rcases split_cons hq with ⟨-, he, -⟩ | ⟨q', rfl, hq'⟩
    · cases he
    · exact .inl (pinned_imp (fun j _ => hready j) (h.pinned hs rfl (by rw [hq']; simp)))
  · rcases split_cons hq with ⟨-, he, -⟩ | ⟨q', -, hq⟩
    · cases he
    · exact fun {_ _} hb => h.behind (q := .nextSocket k :: q') (by rw [hs, hq]; rfl) hb
  · have hw : ∃ pre post, ks = pre ++ post ∧ n = post.head? ∧ ∀ j ∈ pre, p.r.Ready none j := by
      rcases List.mem_cons.mp hm with he | hm
      · obtain rfl := Frame.walkSockets.inj he
        exact hwalk
      · exact h.walk (hmem hm)
    obtain ⟨pre', post', hks', hnp, hpre'⟩ := hw
    exact ⟨pre', post', hks', hnp, fun j hj => hready j (hpre' j hj)⟩
  · exact ⟨_, List.mem_cons_self, rfl⟩

/-- A walk over the streams of the socket starts. -/
theorem enter (h : Torn p ks (some k)) (hs : p.r.stack = .nextSocket k :: rest)
    (hlive : ∃ s < p.r.nstreams, p.r.closed s = false ∧ p.r.socket s = some k) (n : Option ℕ) :
    Torn { p with r := { p.r with stack := .walkStreams (some k) n :: p.r.stack } } ks none := by
  have hready : ∀ j, p.r.Ready (some k) j →
      { p.r with stack := .walkStreams (some k) n :: p.r.stack }.Ready none j := by
    intro j hj
    by_cases hjk : k = j
    · subst hjk
      exact .inr ⟨.inr ⟨_, List.mem_cons_self, rfl⟩, .inl hlive⟩
    · refine Roster.Ready.restack (x := none) (.inr (hj.resolve_left fun e => hjk ?_)) (.inl rfl)
        fun f hf _ => List.mem_cons_of_mem _ hf
      exact Option.some.inj e
  have hclosingSocket : ∀ {k'}, Frame.closingSocket k' ∈ Frame.walkStreams (some k) n :: p.r.stack ↔
      .closingSocket k' ∈ p.r.stack := by simp
  refine ⟨h.rep, fun {k'} => ?_, fun {k'} hk' => h.shutting (hclosingSocket.mp hk'), fun k' => ?_,
    fun {g s k'} hg hgs hk' => ?_, ?_, fun {q k' below} hq => ?_,
    fun {q k' rest'} hq => ?_, fun {m} hm => ?_, fun ht => ?_, h.shuts⟩
  · rw [h.mem, hclosingSocket]
  · exact Nat.le_trans (Nat.le_of_eq (count_cons (f := .walkStreams (some k) n) nofun _)) (h.once k')
  · rcases List.mem_cons.mp hg with rfl | hg
    · cases hgs
    · exact h.closing hg hgs hk'
  · refine h.adjacent.push fun g below hb => ?_
    rw [hs] at hb
    obtain ⟨rfl, -⟩ := List.cons.inj hb
    exact .inl rfl
  · rcases split_cons hq with ⟨-, he, -⟩ | ⟨q', rfl, hq'⟩
    · cases he
    refine (h.next hq').imp (pinned_imp fun j _ => hready j) ?_
    rintro ⟨hout, hquiet, pre, post, hks, hnext, hpre⟩
    refine ⟨hout, ?_, pre, post, hks, hnext, fun j hj => hready j (hpre j hj)⟩
    rw [hs] at hq'
    rcases hquiet with rfl | ⟨f, rfl, hf⟩
    · obtain ⟨he, -⟩ := List.cons.inj hq'
      obtain rfl := Frame.nextSocket.inj he
      exact .inr ⟨_, rfl, rfl⟩
    · obtain ⟨rfl, -⟩ := List.cons.inj hq'
      cases hf
  · rcases split_cons hq with ⟨-, he, -⟩ | ⟨q', -, hq⟩
    · cases he
    · exact h.behind hq
  · rcases List.mem_cons.mp hm with he | hm
    · cases he
    · obtain ⟨pre', post', hks', hnp, hpre'⟩ := h.walk hm
      exact ⟨pre', post', hks', hnp, fun j hj => hready j (hpre' j hj)⟩
  · refine (h.cover ht).imp (fun hr j hj => hready j (hr j hj)) ?_
    rintro ⟨f, hf, hfs⟩
    exact ⟨f, List.mem_cons_of_mem _ hf, hfs⟩

/-- A socket closes that has no streams, while no close of it or of a stream
of it is in progress. -/
theorem shut (h : Torn p ks x) (hx : x = none ∨ x = some k) (hk : k ∈ ks)
    (hin : ∀ k', .nextSocket k' ∈ p.r.stack → k' ∈ ks)
    (hempty : ∀ s < p.r.nstreams, p.r.closed s = false → p.r.socket s ≠ some k)
    (hno : ∀ f ∈ p.r.stack, ∀ s, f.closing = some s → p.r.socket s ≠ some k)
    (hnot : .closingSocket k ∉ p.r.stack)
    (htop : ∀ g rest, p.r.stack = g :: rest → Over (.closingSocket k) g)
    (hsocket : ∀ a, .nextStream (some k) a ∈ p.r.stack → p.r.socket a = some k) :
    Torn { p with
      r := { p.r with
        shut := Function.update p.r.shut k true
        stack := .user :: .closingSocket k :: p.r.stack }
      shuts := k :: p.shuts } ks none := by
  have hmem : ∀ {g : Frame}, g ∈ Frame.user :: .closingSocket k :: p.r.stack ↔
      g = .user ∨ g = .closingSocket k ∨ g ∈ p.r.stack := by
    intro g
    simp
  obtain ⟨hlt, hopen⟩ := h.mem.mp hk
  have hopen := hopen.resolve_right hnot
  have hready : ∀ j, p.r.Ready x j → { p.r with
      shut := Function.update p.r.shut k true
      stack := .user :: .closingSocket k :: p.r.stack }.Ready none j := by
    intro j hj
    by_cases hjk : j = k
    · subst hjk
      refine .inr ⟨.inl fun s hs hc hsj => absurd hsj (hempty s hs hc), .inr ?_⟩
      exact ⟨_, hmem.mpr (.inr (.inl rfl)), .inl rfl⟩
    · have hj' : p.r.Handled j ∧ p.r.Served j := by
        refine hj.resolve_left fun e => ?_
        rcases hx with rfl | rfl
        · cases e
        · exact hjk (Option.some.inj e).symm
      exact Roster.Ready.restack (x := none) (.inr hj') (.inl rfl) fun f hf _ =>
        hmem.mpr (.inr (.inr hf))
  have hpinned : ∀ k', .nextSocket k' ∈ Frame.user :: .closingSocket k :: p.r.stack →
      Fleet.Pinned { p with
        r := { p.r with
          shut := Function.update p.r.shut k true
          stack := .user :: .closingSocket k :: p.r.stack }
        shuts := k :: p.shuts } ks none k' := by
    intro k' hk'
    rcases hmem.mp hk' with he | he | hk'
    · cases he
    · cases he
    · obtain ⟨q, below, hst⟩ := List.append_of_mem hk'
      rcases h.next hst with hp | ⟨hout, -⟩
      · exact pinned_imp (fun j _ => hready j) hp
      · exact absurd (hin k' hk') hout
  have hold : ∀ {k'}, k' ≠ k → Function.update p.r.shut k true k' = p.r.shut k' := fun hne =>
    Function.update_of_ne hne ..
  have hself : Function.update p.r.shut k true k = true := Function.update_self ..
  refine ⟨h.rep, fun {k'} => ?_, fun {k'} hk' => ?_, fun k' => ?_,
    fun {g s k'} hg hgs hk' => ?_, ?_, fun {q k' below} hq => next_of_pinned hpinned hq,
    fun {q k' rest'} hq => ?_, fun {m} hm => ?_, fun ht => ?_, ?_⟩
  · by_cases hkk : k' = k
    · subst hkk
      exact ⟨fun _ => ⟨hlt, .inr (hmem.mpr (.inr (.inl rfl)))⟩, fun _ => hk⟩
    · rw [h.mem, hmem]
      dsimp only
      rw [hold hkk]
      simp [hkk]
  · dsimp only
    rcases hmem.mp hk' with he | he | hm
    · cases he
    · obtain rfl := Frame.closingSocket.inj he
      exact ⟨hlt, hself⟩
    · obtain ⟨hlt', hs'⟩ := h.shutting hm
      refine ⟨hlt', ?_⟩
      rw [hold]
      · exact hs'
      · rintro rfl
        exact hnot hm
  · refine Nat.le_trans (Nat.le_of_eq (count_cons (f := .user) nofun _)) ?_
    by_cases hkk : k' = k
    · subst hkk
      exact Nat.le_of_eq (List.count_cons_self.trans
        (congrArg (· + 1) (List.count_eq_zero_of_not_mem hnot)))
    · rw [count_cons fun he => hkk (Frame.closingSocket.inj he).symm]
      exact h.once k'
  · rcases hmem.mp hg with rfl | rfl | hm
    · cases hgs
    · cases hgs
    · obtain ⟨hlt', hs'⟩ := h.closing hm hgs hk'
      refine ⟨hlt', ?_⟩
      dsimp only
      rw [hold]
      · exact hs'
      · rintro rfl
        exact hno g hm s hgs hk'
  · exact (h.adjacent.push htop).push fun g below hb => by
      obtain ⟨rfl, -⟩ := List.cons.inj hb
      trivial
  · rcases split_cons hq with ⟨-, he, -⟩ | ⟨q', -, hq⟩
    · cases he
    rcases split_cons hq with ⟨-, he, hrest⟩ | ⟨q', -, hq⟩
    · obtain rfl := Frame.closingSocket.inj he
      exact fun {_ _} hb => h.adjacent.quiet hsocket hnot hno (hrest.symm.trans hb)
    · exact h.behind hq
  · rcases hmem.mp hm with he | he | hm
    · cases he
    · cases he
    · obtain ⟨pre', post', hks', hnp, hpre'⟩ := h.walk hm
      exact ⟨pre', post', hks', hnp, fun j hj => hready j (hpre' j hj)⟩
  · refine (h.cover ht).imp (fun hr j hj => hready j (hr j hj)) ?_
    rintro ⟨f, hf, hfs⟩
    exact ⟨f, hmem.mpr (.inr (.inr hf)), hfs⟩
  · obtain ⟨hn, hiff⟩ := h.shuts
    refine ⟨List.nodup_cons.mpr ⟨fun hm => ?_, hn⟩, fun k' => ?_⟩
    · have := ((hiff k).mp hm).2
      rw [hopen] at this
      cases this
    · dsimp only
      rw [List.mem_cons, hiff]
      by_cases hkk : k' = k
      · subst hkk
        rw [hself]
        simp [hlt]
      · rw [hold hkk]
        simp [hkk]

/-- The socket leaves the list. -/
theorem leave (h : Torn p ks none) (hs : p.r.stack = .closingSocket k :: rest) :
    Torn { p with
      r := { p.r with stack := rest }
      link := (p.link.remove p.head k).1
      head := (p.link.remove p.head k).2 } (ks.erase k) none := by
  have hmem : ∀ {g}, g ∈ rest → g ∈ p.r.stack := fun hg => hs ▸ List.mem_cons_of_mem _ hg
  have htop : .closingSocket k ∈ p.r.stack := by rw [hs]; exact List.mem_cons_self
  obtain ⟨hlt, hshut⟩ := h.shutting htop
  have hk : k ∈ ks := h.mem.mpr ⟨hlt, .inr htop⟩
  have hn := h.rep.nodup
  have hgone : .closingSocket k ∉ rest := by
    have hcount := h.once k
    rw [hs, List.count_cons_self] at hcount
    exact List.count_eq_zero.mp (by omega)
  have hready : ∀ {j}, j ≠ k → p.r.Ready none j → { p.r with stack := rest }.Ready none j := by
    refine fun {j} hne hj => hj.restack (.inl rfl) fun f hf hkeep => ?_
    rw [hs] at hf
    rcases List.mem_cons.mp hf with rfl | hf
    · rcases hkeep with hk | hk | hk
      · cases hk
      · exact absurd (Frame.closingSocket.inj hk).symm hne
      · obtain ⟨s, hs, -⟩ := hk
        cases hs
    · exact hf
  have hadj := h.adjacent
  rw [hs] at hadj
  refine ⟨h.rep.remove hk, fun {k'} => ?_, fun {k'} hk' => h.shutting (hmem hk'), fun k' => ?_,
    fun {g s k'} hg hgs hk' => h.closing (hmem hg) hgs hk', hadj.pop, fun {q k' below} hq => ?_,
    fun {q k' rest'} hq => ?_, fun {m} hm => ?_, fun ht => ?_, h.shuts⟩
  · rw [hn.mem_erase_iff, h.mem, hs, List.mem_cons]
    by_cases hkk : k' = k
    · subst hkk
      simp [hshut, hgone]
    · simp [hkk]
  · have hcount := h.once k'
    rw [hs] at hcount
    exact Nat.le_trans (List.count_le_count_cons) hcount
  · have hq : rest = q ++ .nextSocket k' :: below := hq
    obtain ⟨pre, post, hks, hpre⟩ := h.pinned (k := k') hs rfl (by rw [hq]; simp)
    rw [hks] at hn
    by_cases hkk : k' = k
    · -- the walk stands at this socket: its pointer to the next one is stale, and right
      subst hkk
      have hpost := h.rep.next hks
      have hmid : k' ∉ pre := fun hm => (List.nodup_append.mp hn).2.2 k' hm k' (by simp) rfl
      refine .inr ⟨fun hm => (List.Nodup.not_mem_erase h.rep.nodup) hm, ?_, pre, post, ?_, ?_, ?_⟩
      · exact h.behind (show _ = [] ++ .closingSocket k' :: rest from hs) hq
      · rw [hks, List.erase_append_right _ hmid, List.erase_cons_head]
      · exact (h.rep.remove_next_stale hk (.inr rfl)).trans hpost
      · refine fun j hj => hready ?_ (hpre j (List.mem_append_left _ hj))
        rintro rfl
        exact hmid hj
    · refine .inl ⟨pre.erase k, post.erase k, ?_, fun j hj => ?_⟩
      · rw [hks, Listed.erase_append hn, List.erase_cons_tail (by simpa using hkk)]
      · rcases List.mem_append.mp hj with hj | hj
        · have hj' := List.mem_of_mem_erase hj
          refine hready ?_ (hpre j (List.mem_append_left _ hj'))
          rintro rfl
          exact (List.Nodup.not_mem_erase (List.nodup_append.mp hn).1) hj
        · obtain rfl := List.mem_singleton.mp hj
          exact hready hkk (hpre j (by simp))
  · have hq : rest = q ++ .closingSocket k' :: rest' := hq
    exact fun {_ _} hb => h.behind (q := .closingSocket k :: q) (by rw [hs, hq]; rfl) hb
  · -- nothing is above the frame that comes to a socket
    have hm : .walkSockets m ∈ p.r.stack := hmem hm
    obtain ⟨rest', hr⟩ := h.adjacent.top hm fun f hover => hover
    rw [hs] at hr
    cases hr
  · refine (h.cover ht).imp (fun hr j hj => ?_) ?_
    · obtain ⟨hne, hj⟩ := (h.rep.nodup.mem_erase_iff).mp hj
      exact hready hne (hr j hj)
    · rintro ⟨f, hf, hfs⟩
      rw [hs] at hf
      rcases List.mem_cons.mp hf with rfl | hf
      · cases hfs
      · exact ⟨f, hf, hfs⟩

/-- A new socket. -/
theorem socket (h : Torn p ks none) (hl : Listed p.r xs e) (ht : p.r.teardown = false) :
    Torn { p with
      r := { p.r with
        shut := Function.update p.r.shut p.r.nsockets false
        nsockets := p.r.nsockets + 1
        head := Function.update p.r.head (some p.r.nsockets) none }
      link := p.link.add p.head p.r.nsockets
      head := some p.r.nsockets } (p.r.nsockets :: ks) none := by
  have hnot : ∀ {f : Frame}, f ∈ p.r.stack → f.tears = true → False := by
    intro f hf hft
    rw [hl.tearing hf hft] at ht
    cases ht
  have hnew : p.r.nsockets ∉ ks := fun hm => absurd (h.mem.mp hm).1 (Nat.lt_irrefl _)
  have hold : ∀ {k}, k < p.r.nsockets → Function.update p.r.shut p.r.nsockets false k = p.r.shut k :=
    fun hk => Function.update_of_ne (Nat.ne_of_lt hk) ..
  refine ⟨h.rep.add hnew, fun {k} => ?_, fun {k} hk => ?_, h.once,
    fun {g s k} hg hgs hk => ?_, h.adjacent, fun {q k below} hq => ?_,
    fun {q k rest'} hq q' below hb => ?_, fun {m} hm => ?_, fun ht' => ?_, h.shuts.1, fun k => ?_⟩
  · rw [List.mem_cons, h.mem]
    dsimp only
    by_cases hk : k = p.r.nsockets
    · subst hk
      rw [Function.update_self]
      simp
    · rw [Function.update_of_ne hk]
      have : k < p.r.nsockets + 1 ↔ k < p.r.nsockets := by omega
      simp [hk, this]
  · obtain ⟨hlt, hshut⟩ := h.shutting hk
    exact ⟨Nat.lt_succ_of_lt hlt, (hold hlt).trans hshut⟩
  · obtain ⟨hlt, hshut⟩ := h.closing hg hgs hk
    exact ⟨Nat.lt_succ_of_lt hlt, (hold hlt).trans hshut⟩
  · have hq : p.r.stack = q ++ .nextSocket k :: below := hq
    exact (hnot (f := .nextSocket k) (by rw [hq]; simp) rfl).elim
  · have hq : p.r.stack = q ++ .closingSocket k :: rest' := hq
    exact (hnot (f := .nextSocket k) (by rw [hq, hb]; simp) rfl).elim
  · exact (hnot (f := .walkSockets m) hm rfl).elim
  · have ht' : p.r.teardown = true := ht'
    rw [ht] at ht'
    cases ht'
  · rw [h.shuts.2]
    dsimp only
    by_cases hk : k = p.r.nsockets
    · subst hk
      rw [Function.update_self]
      simp
    · rw [Function.update_of_ne hk]
      have : k < p.r.nsockets + 1 ↔ k < p.r.nsockets := by omega
      rw [this]

/-- `udx_teardown` starts. -/
theorem teardown (h : Torn p ks none) (htop : ∀ g rest, p.r.stack = g :: rest → g = .user) :
    Torn { p with r := { p.r with
      teardown := true
      stack := .walkSockets p.head :: .walkFree :: p.r.stack } } ks none := by
  have hmem : ∀ {g : Frame}, g ∈ Frame.walkSockets p.head :: .walkFree :: p.r.stack ↔
      g = .walkSockets p.head ∨ g = .walkFree ∨ g ∈ p.r.stack := by
    intro g
    simp
  have hready : ∀ j, p.r.Ready none j → { p.r with
      teardown := true
      stack := .walkSockets p.head :: .walkFree :: p.r.stack }.Ready none j := fun j hj =>
    Roster.Ready.restack (r := p.r) (x := none) hj (.inl rfl) fun f hf _ => hmem.mpr (.inr (.inr hf))
  have hpinned : ∀ k, .nextSocket k ∈ Frame.walkSockets p.head :: .walkFree :: p.r.stack →
      Fleet.Pinned { p with r := { p.r with
        teardown := true
        stack := .walkSockets p.head :: .walkFree :: p.r.stack } } ks none k := by
    intro k hk
    rcases hmem.mp hk with he | he | hk
    · cases he
    · cases he
    refine pinned_imp (fun j _ => hready j) ?_
    cases hst : p.r.stack with
    | nil =>
      rw [hst] at hk
      cases hk
    | cons g rest =>
      obtain rfl := htop g rest hst
      refine h.pinned hst rfl ?_
      rw [hst] at hk
      rcases List.mem_cons.mp hk with he | hk
      · cases he
      · exact hk
  refine ⟨h.rep, fun {k} => ?_, fun {k} hk => h.shutting ?_, fun k => ?_,
    fun {g s k} hg hgs hk => h.closing ?_ hgs hk, ?_, fun {q k below} hq => next_of_pinned hpinned hq,
    fun {q k rest'} hq => ?_, fun {m} hm => ?_, fun _ => .inr ?_, h.shuts⟩
  · rw [h.mem, hmem]
    simp
  · rcases hmem.mp hk with he | he | hk
    · cases he
    · cases he
    · exact hk
  · refine Nat.le_trans (Nat.le_of_eq ?_) (h.once k)
    exact (count_cons (f := .walkSockets p.head) nofun _).trans (count_cons (f := .walkFree) nofun _)
  · rcases hmem.mp hg with rfl | rfl | hg
    · cases hgs
    · cases hgs
    · exact hg
  · refine Adjacent.push (h.adjacent.push fun g below hb => ?_) fun g below hb => ?_
    · rw [htop g below hb]
      trivial
    · obtain ⟨rfl, -⟩ := List.cons.inj hb
      trivial
  · rcases split_cons hq with ⟨-, he, -⟩ | ⟨q', -, hq⟩
    · cases he
    rcases split_cons hq with ⟨-, he, -⟩ | ⟨q', -, hq⟩
    · cases he
    · exact h.behind hq
  · rcases hmem.mp hm with he | he | hm
    · obtain rfl := Frame.walkSockets.inj he
      exact ⟨[], ks, rfl, h.rep.head, nofun⟩
    · cases he
    · obtain ⟨pre, post, hks, hnp, hpre⟩ := h.walk hm
      exact ⟨pre, post, hks, hnp, fun j hj => hready j (hpre j hj)⟩
  · exact ⟨_, List.mem_cons_self, rfl⟩

end Torn

/-! ### Operations of the program -/

/-- No socket closed while a close of it, or of a stream of it, was in
progress. -/
def ClosesApart (u : State) : Prop := ∀ k inside, .socketClosed k inside ∈ u.log → inside = none

/-- What is preserved: where sockets close apart, the walks of `udx_teardown`
come to every socket but `x`. -/
def Toured (u : State) (x : Option ℕ) : Prop := ClosesApart u → ∃ ks, Torn u.fleet ks x

theorem ClosesApart.suffix {u v : State} (h : ClosesApart v) (hl : ∃ l, v.log = l ++ u.log) :
    ClosesApart u := by
  obtain ⟨l, hl⟩ := hl
  exact fun k inside hm => h k inside (by rw [hl]; simp [hm])

/-- Neither the list of sockets nor what the log says of it changes. -/
def Ashore (u v : State) : Prop :=
  v.socketLink = u.socketLink ∧ v.socketList = u.socketList ∧
    v.log.filterMap LogEntry.shuts = u.log.filterMap LogEntry.shuts ∧ ∃ l, v.log = l ++ u.log

section

variable {u v w : State} {x x' e : Option ℕ} {s k : ℕ}

theorem Ashore.refl (u : State) : Ashore u u := ⟨rfl, rfl, rfl, [], rfl⟩

theorem Ashore.trans (h : Ashore u v) (h' : Ashore v w) : Ashore u w := by
  obtain ⟨h1, h2, h3, l, h4⟩ := h
  obtain ⟨h1', h2', h3', l', h4'⟩ := h'
  exact ⟨h1'.trans h1, h2'.trans h2, h3'.trans h3, l' ++ l, by rw [h4', h4, List.append_assoc]⟩

theorem Ashore.note {l : LogEntry} (hl : l.shuts = none) : Ashore u (u.note l) :=
  ⟨rfl, rfl, List.filterMap_cons_none hl, [l], rfl⟩

theorem Ashore.check (a : Site) (p : Prop) [Decidable p] : Ashore u (u.check a p) := by
  unfold State.check
  split
  · exact .refl u
  · exact .note rfl

theorem Ashore.setHead (o h : Option ℕ) : Ashore u (u.setHead o h) := by
  cases o <;> exact ⟨rfl, rfl, rfl, [], rfl⟩

theorem Ashore.linkStream (o : Option ℕ) (s : ℕ) : Ashore u (linkStream o s u) := by
  unfold Registry.linkStream
  exact Ashore.trans (v := { u with streamLink := u.streamLink.add (u.head o) s })
    ⟨rfl, rfl, rfl, [], rfl⟩ (.setHead _ _)

theorem Ashore.unlinkStream (o : Option ℕ) (s : ℕ) : Ashore u (unlinkStream o s u) := by
  unfold Registry.unlinkStream
  exact Ashore.trans (v := { u with streamLink := (u.streamLink.remove (u.head o) s).1 })
    ⟨rfl, rfl, rfl, [], rfl⟩ (.setHead _ _)

theorem Ashore.closeStreamInternal (s : ℕ) : Ashore u (closeStreamInternal s u) := by
  have hentry : ∀ v : State, Ashore v (closeEntry s v) := by
    intro v
    unfold closeEntry
    dsimp only
    split <;> exact ⟨rfl, rfl, rfl, [], rfl⟩
  have hmark : ∀ v : State, Ashore v (markClosed s v) := fun v =>
    Ashore.trans (v := v.setStream s _) ⟨rfl, rfl, rfl, [], rfl⟩ (.note rfl)
  have hpush : ∀ (v : State) f, Ashore v (v.push f) := fun _ _ => ⟨rfl, rfl, rfl, [], rfl⟩
  unfold Registry.closeStreamInternal
  exact ((((Ashore.check _ _).trans (hmark _)).trans (.unlinkStream _ _)).trans (hentry _)).trans
    ((hpush _ _).trans (hpush _ _))

theorem Ashore.timewaitTimeout (t : ℕ) : Ashore u (timewaitTimeout t u) := by
  unfold Registry.timewaitTimeout
  exact Ashore.trans (Ashore.check _ _) ⟨rfl, rfl, rfl, [], rfl⟩

/-- `udx_socket_close` of a socket without streams, but for the entry in the
log. -/
theorem Ashore.socketClose (hk : (u.sockets k).streams = none) :
    Ashore (u.note (.socketClosed k (closeInside k u))) (Registry.socketClose k u) := by
  have hend : ∀ (q : List ℕ) (v : State) (f g : Frame),
      Ashore v (((q.foldl (fun u t => Registry.timewaitTimeout t u) v).push f).push g) := by
    intro q
    induction q with
    | nil => exact fun v _ _ => .refl v
    | cons t rest ih => exact fun v f g => (Ashore.timewaitTimeout t).trans (ih _ f g)
  unfold Registry.socketClose
  rw [if_neg (not_not.mpr hk)]
  exact Ashore.trans (v := (u.setSocket k fun x => { x with closed := true }).note
    (.socketClosed k (closeInside k u))) ⟨rfl, rfl, rfl, [], rfl⟩ (hend _ _ _ _)

theorem Ashore.fleet (h : Ashore u v) : v.fleet = { u.fleet with r := v.roster } := by
  obtain ⟨h1, h2, h3, -⟩ := h
  unfold State.fleet
  rw [h1, h2, h3]

/-- What streams do that the list of sockets does not see. -/
theorem Toured.of_torn (h : Toured u x) (ha : Ashore u v)
    (ht : ∀ ks, Torn u.fleet ks x → ∃ ks', Torn { u.fleet with r := v.roster } ks' x') :
    Toured v x' := by
  intro hs
  obtain ⟨ks, h⟩ := h (hs.suffix ha.2.2.2)
  rw [ha.fleet]
  exact ht ks h

theorem Toured.congr (h : Toured u x) (ha : Ashore u v) (hr : v.roster = u.roster) : Toured v x :=
  h.of_torn ha fun ks hks => ⟨ks, by rw [hr]; exact hks⟩

theorem Toured.setStream (h : Toured u x) (s : ℕ) {f : Stream → Stream} {c w r : Bool}
    {t : Option ℕ} {id : SeqNo} (hf : f (u.streams s) = { u.streams s with
      localId := id, connected := c, timewaitWanted := w, relayed := r, relayTo := t }) :
    Toured (u.setStream s f) x := h.congr ⟨rfl, rfl, rfl, [], rfl⟩ (setStream_roster hf)

theorem Toured.closeStreamInternal (h : Toured u x) (hl : Enlisted u e) {f : Stream → Stream}
    {d w : Bool} (hf : f (u.streams s) = { u.streams s with
      destroying := d, timewaitWanted := w, destroyQueued := false })
    (hs : s < u.nstreams) (hc : (u.streams s).closed = false)
    (htop : ∀ g rest, u.stack = g :: rest → Over (.clearing s) g) :
    Toured (closeStreamInternal s (u.setStream s f)) x := by
  have ha : Ashore u (u.setStream s f) := ⟨rfl, rfl, rfl, [], rfl⟩
  obtain ⟨xs, hl⟩ := hl
  refine h.of_torn (ha.trans (.closeStreamInternal s)) fun ks hks => ⟨ks, ?_⟩
  rw [closeStreamInternal_roster hf]
  exact hks.close hl (hl.mem_home hs hc) d htop

theorem Toured.closeStream (h : Toured u x) (hl : Enlisted u e) (err : Bool) (hs : s < u.nstreams)
    (hc : (u.streams s).closed = false)
    (htop : ∀ g rest, u.stack = g :: rest → Over (.clearing s) g) :
    Toured (closeStream s err u) x := by
  obtain ⟨w, ⟨-, heq⟩ | ⟨hd, heq⟩⟩ := closeStream_cases s err u <;> rw [heq]
  · exact h.setStream s rfl
  · exact h.closeStreamInternal hl (d := (u.streams s).destroying) (w := w)
      (by rw [← hl.not_queued hs hd]) hs hc htop

theorem Toured.streamDestroy (h : Toured u x) (hl : Enlisted u e) (queued : Bool)
    (hs : s < u.nstreams) (htop : ∀ g rest, u.stack = g :: rest → Over (.clearing s) g) :
    Toured (streamDestroy s queued u) x := by
  obtain ⟨-, heq⟩ | ⟨⟨hc, hd⟩, ⟨d, heq⟩ | heq⟩ := streamDestroy_cases s queued u <;> rw [heq]
  · exact h
  · exact h.closeStreamInternal hl (d := d) (w := false) (by rw [← hl.not_queued hs hd]) hs hc htop
  · obtain ⟨xs, hl⟩ := hl
    refine h.of_torn ⟨rfl, rfl, rfl, [], rfl⟩ fun ks hks => ⟨ks, ?_⟩
    rw [setFlags_roster (d := true) (q := true) (w := false) rfl]
    refine hks.of_roster hl rfl rfl rfl rfl (fun _ _ => rfl) fun _ j hj => hj.imp_right ?_
    rintro ⟨hh, hserved⟩
    refine ⟨hh.imp_left fun hd y hy hcy hyj => ?_, hserved⟩
    by_cases hys : y = s
    · exact hys ▸ Function.update_self ..
    · exact (Function.update_of_ne hys ..).trans (hd y hy hcy hyj)

theorem closeInside_none (h : closeInside k u = none) :
    .closingSocket k ∉ u.stack ∧
      ∀ f ∈ u.stack, ∀ s, f.closing = some s → (u.streams s).socket ≠ some k := by
  unfold closeInside at h
  rw [List.find?_eq_none] at h
  refine ⟨fun hm => by simpa using h _ hm, fun f hf s hs hk => ?_⟩
  have hno := h f hf
  cases f with
  | clearing s' =>
    obtain rfl := Option.some.inj hs
    simp [hk] at hno
  | relaying s' i =>
    obtain rfl := Option.some.inj hs
    simp [hk] at hno
  | _ => cases hs

/-- `udx_socket_close` of a socket that is in the list. -/
theorem Toured.socketClose (h : Toured u x) (hl : Enlisted u e) (hx : x = none ∨ x = some k)
    (hk : (u.sockets k).streams = none)
    (hks : ClosesApart u → ∀ ks, Torn u.fleet ks x → k ∈ ks ∧
      (∀ k', .nextSocket k' ∈ u.stack → k' ∈ ks) ∧
      ∀ g rest, u.stack = g :: rest → Over (.closingSocket k) g) :
    Toured (socketClose k u) none := by
  have hashore := Ashore.socketClose hk
  intro hs
  have hs' := hs.suffix hashore.2.2.2
  obtain ⟨hnot, hno⟩ := closeInside_none (hs' k _ List.mem_cons_self)
  have hsu := hs'.suffix ⟨[_], rfl⟩
  obtain ⟨ks, htorn⟩ := h hsu
  obtain ⟨hin, hpinned, htop⟩ := hks hsu ks htorn
  obtain ⟨xs, hl⟩ := hl
  have hempty : xs (some k) = [] := List.head?_eq_none_iff.mp ((hl.rep _).head.symm.trans hk)
  refine ⟨ks, ?_⟩
  rw [hashore.fleet, socketClose_roster hk]
  refine htorn.shut hx hin hpinned (fun s hs hc hsk => ?_) hno hnot htop fun a ha =>
    hl.turn_socket ha
  have hm : s ∈ xs (some k) := hl.mem.mpr ⟨hs, hc, hsk⟩
  rw [hempty] at hm
  cases hm

theorem Toured.setRelaying (h : Toured u x) (hl : Enlisted u e) (d : ℕ) {f : Stream → Stream}
    {c : Cirbuf} (hf : f (u.streams d) = { u.streams d with relaying := c }) :
    Toured (u.setStream d f) x := by
  obtain ⟨xs, hl⟩ := hl
  refine h.of_torn ⟨rfl, rfl, rfl, [], rfl⟩ fun ks hks => ⟨ks, ?_⟩
  rw [setRelaying_roster d hf]
  exact hks.of_roster hl rfl rfl rfl rfl (fun _ _ => rfl) fun _ j hj => hj

theorem Toured.unlinkRelay (h : Toured u x) (hl : Enlisted u e) (s : ℕ) :
    Toured (unlinkRelay s u) x := by
  unfold Registry.unlinkRelay
  split
  · exact h
  · exact Toured.setRelaying ((h.congr (.check _ _) (check_roster ..)).congr (.check _ _) (check_roster ..))
      ((hl.congr (check_roster ..)).congr (check_roster ..)) _ rfl

/-! ### The machine -/

theorem Toured.retop (h : Toured u none) (hl : Enlisted u e) {f : Frame} {rest l : List Frame}
    (hu : u.stack = f :: rest) (hf : f.list = none) (hfk : ∀ k, f ≠ .closingSocket k)
    (hnew : l = [] ∨ ∃ g, l = [g] ∧ g.closing = f.closing ∧ (∀ k, g ≠ .closingSocket k) ∧
      g.strolls = false ∧ (∀ g' below, rest = g' :: below → Over f g' → Over g g'))
    (hready : u.teardown = true → ∀ j, u.roster.Ready none j →
      { u.roster with stack := l ++ rest }.Ready x' j)
    (hstroll : ∀ ks, Torn u.fleet ks none → f.strolls = true →
      ∀ j ∈ ks, u.roster.Ready none j) : Toured { u with stack := l ++ rest } x' := by
  obtain ⟨xs, hl⟩ := hl
  exact h.of_torn ⟨rfl, rfl, rfl, [], rfl⟩ fun ks hks =>
    ⟨ks, hks.retop hl hu hf hfk hnew (fun ht j _ => hready ht j) (hstroll ks hks)⟩

/-- A user callback returns. -/
theorem Toured.returned (h : Toured u none) (hl : Enlisted u e) {rest : List Frame}
    (hu : u.stack = .user :: rest) : Toured { u with stack := rest } none := by
  refine h.retop hl (l := []) hu rfl nofun (.inl rfl) (fun _ j hj => ?_) nofun
  refine hj.restack (.inl rfl) fun f hf hkeep => ?_
  have hf : f ∈ u.stack := hf
  rw [hu] at hf
  rcases List.mem_cons.mp hf with rfl | hf
  · rcases hkeep with hk | hk | ⟨s, hk, -⟩ <;> cases hk
  · exact hf

/-- A close goes on. -/
theorem Toured.closing (h : Toured u none) (hl : Enlisted u e) {f g : Frame} {rest : List Frame}
    (hu : u.stack = f :: rest) (hf : f.closing = some s) (hg : g.closing = some s) :
    Toured (State.push g { u with stack := rest }) none := by
  have hplain : ∀ {f : Frame}, f.closing = some s → f.list = none ∧ (∀ k, f ≠ .closingSocket k) ∧
      f.strolls = false := by
    intro f hf
    cases f with
    | clearing s => exact ⟨rfl, fun _ => nofun, rfl⟩
    | relaying s i => exact ⟨rfl, fun _ => nofun, rfl⟩
    | _ => cases hf
  obtain ⟨hfl, hfk, hfs⟩ := hplain hf
  obtain ⟨-, hgk, hgs⟩ := hplain hg
  refine h.retop hl (l := [g]) hu hfl hfk
    (.inr ⟨g, rfl, hg.trans hf.symm, hgk, hgs, fun g' _ _ hover => ?_⟩) (fun _ j hj => ?_)
    fun _ _ hno => by rw [hfs] at hno; cases hno
  · cases g' with
    | nextSocket k =>
      rcases hover with hl | hk
      · rw [hfl] at hl
        cases hl
      · exact absurd hk (hfk k)
    | nextStream o a =>
      rcases hover with hc | ⟨k, -, hk⟩
      · exact .inl (hg.trans (hf.symm.trans hc))
      · exact absurd hk (hfk k)
    | walkSockets n => exact hover.elim
    | walkStreams o n => exact hover.elim
    | _ => trivial
  · have hmem : ∀ {f'}, f' ∈ u.stack → f' = f ∨ f' ∈ [g] ++ rest := by
      intro f' hf'
      rw [hu] at hf'
      exact (List.mem_cons.mp hf').imp_right fun hm => List.mem_append_right _ hm
    refine hj.imp_right ?_
    rintro ⟨hh, hserved⟩
    refine ⟨hh.imp_right ?_, hserved.imp_right ?_⟩
    · rintro ⟨f', hf', hl'⟩
      rcases hmem hf' with rfl | hm
      · rw [hfl] at hl'
        cases hl'
      · exact ⟨f', hm, hl'⟩
    · rintro ⟨f', hf', hk⟩
      rcases hmem hf' with rfl | hm
      · refine ⟨g, List.mem_append_left _ List.mem_cons_self, .inr ?_⟩
        rcases hk with rfl | ⟨s', hs', hj'⟩
        · cases hf
        · exact ⟨s, hg, by rw [show s = s' from Option.some.inj (hf.symm.trans hs')]; exact hj'⟩
      · exact ⟨f', hm, hk⟩

/-- The close of a stream is over. -/
theorem Toured.closeEnd (h : Toured u none) (hl : Enlisted u none) {i : ℕ} {rest : List Frame}
    (hu : u.stack = .relaying s i :: rest) : Toured (closeEnd s { u with stack := rest }) none := by
  have hlpop : Enlisted { u with stack := rest } none := hl.pop hu rfl
  have hfree := hlpop.setRelaying s (f := fun x => { x with relaying := x.relaying.destroy }) rfl
    (fun {v} hv => by obtain ⟨i, hi⟩ := hv; cases hi)
  have hmem : ∀ {f}, f ∈ u.stack → f = .relaying s i ∨ f ∈ rest := by
    intro f hf
    rw [hu] at hf
    exact List.mem_cons.mp hf
  -- what the frame served is served by another
  have hpop : ∀ x', (u.teardown = true → ∀ j, (u.streams s).socket = some j → x' = some j ∨
      ∃ s' < u.nstreams, (u.streams s').closed = false ∧ (u.streams s').socket = some j) →
      Toured (({ u with stack := rest } : State).setStream s fun x =>
        { x with relaying := x.relaying.destroy }) x' := by
    intro x' hserve
    refine Toured.setRelaying (h.retop hl (l := []) hu rfl (fun _ => nofun) (.inl rfl)
      (fun ht j hj => ?_) nofun) hlpop s rfl
    by_cases hsj : (u.streams s).socket = some j
    · rcases hserve ht j hsj with hx | hlive
      · exact .inl hx
      · obtain ⟨hh, -⟩ := hj.resolve_left nofun
        refine .inr ⟨hh.imp_right ?_, .inl hlive⟩
        rintro ⟨f, hf, hfl⟩
        rcases hmem hf with rfl | hf
        · cases hfl
        · exact ⟨f, hf, hfl⟩
    · refine hj.restack (.inl rfl) fun f hf hkeep => ?_
      rcases hmem hf with rfl | hf
      · rcases hkeep with hk | hk | ⟨s', hk, hsj'⟩
        · cases hk
        · cases hk
        · obtain rfl := Option.some.inj hk
          exact absurd hsj' hsj
      · exact hf
  unfold Registry.closeEnd
  dsimp only
  have hself : ((({ u with stack := rest } : State).setStream s fun x =>
      { x with relaying := x.relaying.destroy }).streams s).socket = (u.streams s).socket := by
    rw [State.setStream_self]
  rw [hself]
  cases hsk : (u.streams s).socket with
  | none => exact hpop none fun _ j hj => by rw [hsk] at hj; cases hj
  | some k =>
    dsimp only
    split
    · next hcond =>
      refine (hpop (some k) fun _ j hj => .inl ?_).socketClose hfree (.inr rfl) hcond.2 ?_
      · rw [← hj, hsk]
      · intro hs ks hks
        obtain ⟨ks', hks'⟩ := h (hs.suffix ⟨[], rfl⟩)
        have hopen := hks'.closing (f := .relaying s i) (by
          show _ ∈ u.stack
          rw [hu]
          exact List.mem_cons_self) rfl (show u.roster.socket s = some k from hsk)
        refine ⟨hks.mem.mpr ⟨hopen.1, .inl hopen.2⟩, fun k' hk' => ?_, fun g below hb => ?_⟩
        · obtain ⟨pre, post, heq, -⟩ := hks'.pinned hu rfl hk'
          have hm : k' ∈ ks' := by rw [heq]; simp
          obtain ⟨hlt, hopen'⟩ := hks'.mem.mp hm
          refine hks.mem.mpr ⟨hlt, hopen'.imp_right fun hc => ?_⟩
          rcases hmem hc with hc | hc
          · cases hc
          · exact hc
        · have hb : rest = g :: below := hb
          have hover := hks'.adjacent [] (.relaying s i) g below (by
            show u.stack = _
            rw [hu, hb]
            rfl)
          cases g with
          | nextSocket k' =>
            rcases hover with hc | hc <;> cases hc
          | nextStream o a =>
            rcases hover with hc | ⟨k', -, hc⟩
            · obtain rfl := Option.some.inj hc
              obtain ⟨xs, hlx⟩ := hl
              have hso := hlx.turn_socket (o := o) (a := s) (by
                show _ ∈ u.stack
                rw [hu, hb]
                simp)
              exact .inr ⟨k, hso.symm.trans hsk, rfl⟩
            · cases hc
          | walkSockets n => exact hover.elim
          | walkStreams o n => exact hover.elim
          | _ => trivial
    · next hcond =>
      refine hpop none fun ht j hj => .inr ?_
      obtain rfl : k = j := Option.some.inj (hsk.symm.trans hj)
      have hne : (u.sockets k).streams ≠ none := fun hno => hcond ⟨ht, hno⟩
      obtain ⟨xs, hlx⟩ := hl
      exact hlx.live hne

theorem Toured.relaying (h : Toured u none) (hl : Enlisted u none) {i : ℕ} {rest : List Frame}
    (hu : u.stack = .relaying s i :: rest) (queued : Bool) :
    Toured (Registry.resume queued (.relaying s i) { u with stack := rest }) none := by
  have hmem : Frame.relaying s i ∈ u.stack := by rw [hu]; exact List.mem_cons_self
  simp only [Registry.resume]
  split
  · have hturn : Toured (State.push (.relaying s (i + 1)) { u with stack := rest }) none :=
      h.closing hl hu rfl rfl
    have hlturn : Enlisted (State.push (.relaying s (i + 1)) { u with stack := rest }) none :=
      hl.replace hu (fun xs hl => hl.fits (.relaying s i) hmem) rfl rfl
    split
    · exact hturn
    · next c hc =>
      have hlt : c < u.nstreams := by
        obtain ⟨xs, hl⟩ := hl
        exact hl.held (d := s) ⟨i, hc⟩
      unfold destroyRelaying
      refine Toured.streamDestroy ((hturn.congr (.check _ _) (check_roster ..)).setStream c rfl)
        ((hlturn.congr (check_roster ..)).setStream c rfl) queued ?_ fun g below hb => ?_
      · unfold State.check
        split <;> exact hlt
      · have hb' : Frame.relaying s (i + 1) :: rest = g :: below := by
          rw [← hb]
          unfold State.check
          split <;> rfl
        obtain ⟨rfl, -⟩ := List.cons.inj hb'
        trivial
  · exact h.closeEnd hl hu

/-- The walk over the sockets comes to a socket, or to its end. -/
theorem Toured.walkSockets (h : Toured u none) (hl : Enlisted u none) {n : Option ℕ}
    {rest : List Frame} (hu : u.stack = .walkSockets n :: rest) (queued : Bool) :
    Toured (Registry.resume queued (.walkSockets n) { u with stack := rest }) none := by
  have hmem : Frame.walkSockets n ∈ u.stack := by rw [hu]; exact List.mem_cons_self
  have hpop : Enlisted { u with stack := rest } none := hl.pop hu rfl
  cases n with
  | none =>
    refine h.retop hl (l := []) hu rfl (fun _ => nofun) (.inl rfl) (fun _ j hj => ?_)
      fun ks hks _ => ?_
    · refine hj.restack (.inl rfl) fun f hf hkeep => ?_
      have hf : f ∈ u.stack := hf
      rw [hu] at hf
      rcases List.mem_cons.mp hf with rfl | hf
      · rcases hkeep with hk | hk | ⟨s, hk, -⟩ <;> cases hk
      · exact hf
    · obtain ⟨pre, post, hks', hnone, hpre⟩ := hks.walk hmem
      rw [List.head?_eq_none_iff.mp hnone.symm, List.append_nil] at hks'
      rw [hks']
      exact hpre
  | some k =>
    have hlnext := hpop.push (f := .nextSocket k) rfl rfl (.inl (hl.torn hmem rfl))
    have hnext : Toured (State.push (.nextSocket k) { u with stack := rest }) (some k) :=
      h.of_torn ⟨rfl, rfl, rfl, [], rfl⟩ fun ks hks => ⟨ks, (hks.visit hu).1⟩
    simp only [Registry.resume]
    split
    · next hk =>
      refine hnext.socketClose hlnext (.inr rfl) hk fun hs ks hks => ?_
      obtain ⟨ks', hks'⟩ := h (hs.suffix ⟨[], rfl⟩)
      have hin : ∀ k', k' ∈ ks' → k' ∈ ks := by
        intro k' hk'
        obtain ⟨hlt, hopen⟩ := hks'.mem.mp hk'
        refine hks.mem.mpr ⟨hlt, hopen.imp_right fun hc => ?_⟩
        have hc : .closingSocket k' ∈ u.stack := hc
        rw [hu] at hc
        rcases List.mem_cons.mp hc with hc | hc
        · cases hc
        · exact List.mem_cons_of_mem _ hc
      refine ⟨hin k (hks'.visit hu).2, fun k' hk' => ?_, fun g below hb => ?_⟩
      · rcases List.mem_cons.mp hk' with he | hk'
        · obtain rfl := Frame.nextSocket.inj he
          exact hin _ (hks'.visit hu).2
        · obtain ⟨pre, post, heq, -⟩ := hks'.pinned hu rfl hk'
          exact hin k' (by rw [heq]; simp)
      · obtain ⟨rfl, -⟩ := List.cons.inj hb
        exact .inr rfl
    · next hk =>
      obtain ⟨xs, hlx⟩ := hlnext
      exact hnext.of_torn ⟨rfl, rfl, rfl, [], rfl⟩ fun ks hks =>
        ⟨ks, hks.enter (show _ = .nextSocket k :: rest from rfl) (hlx.live hk) _⟩

/-- A walk over streams goes on. -/
theorem Toured.rewalk (h : Toured u none) {f g : Frame} {rest : List Frame} {o : Option ℕ}
    (hu : u.stack = f :: rest) (hf : f.list = some o) (hg : g.list = some o) :
    Toured (State.push g { u with stack := rest }) none := by
  refine h.of_torn ⟨rfl, rfl, rfl, [], rfl⟩ fun ks hks =>
    ⟨ks, hks.rewalk hu hf (l := [g]) (.inr ⟨g, rfl, hg⟩) fun j _ hj => hj.imp_right ?_⟩
  have hmem : ∀ {f'}, f' ∈ u.stack → f' = f ∨ f' ∈ [g] ++ rest := by
    intro f' hf'
    rw [hu] at hf'
    exact (List.mem_cons.mp hf').imp_right fun hm => List.mem_append_right _ hm
  rintro ⟨hh, hserved⟩
  refine ⟨hh.imp_right ?_, hserved.imp_right ?_⟩
  · rintro ⟨f', hf', hl'⟩
    rcases hmem hf' with rfl | hm
    · exact ⟨g, List.mem_append_left _ List.mem_cons_self, hg.trans (hf.symm.trans hl')⟩
    · exact ⟨f', hm, hl'⟩
  · rintro ⟨f', hf', hk⟩
    rcases hmem hf' with rfl | hm
    · rcases hk with rfl | ⟨s', hs', -⟩
      · cases hf
      · have hnone : f'.closing = none := Frame.closing_of_list hf
        rw [hnone] at hs'
        cases hs'
    · exact ⟨f', hm, hk⟩

theorem Toured.walkStreams (h : Toured u none) (hl : Enlisted u none) {o n : Option ℕ}
    {rest : List Frame} (hu : u.stack = .walkStreams o n :: rest) (queued : Bool) :
    Toured (Registry.resume queued (.walkStreams o n) { u with stack := rest }) none := by
  have hmem : Frame.walkStreams o n ∈ u.stack := by rw [hu]; exact List.mem_cons_self
  cases n with
  | none =>
    obtain ⟨xs, hlx⟩ := hl
    refine h.of_torn ⟨rfl, rfl, rfl, [], rfl⟩ fun ks hks =>
      ⟨ks, hks.rewalk hu rfl (l := []) (.inl rfl) fun j _ hj => ?_⟩
    by_cases hoj : o = some j
    · -- the walk is over: all that is left is being destroyed
      subst hoj
      obtain ⟨-, hserved⟩ := hj.resolve_left nofun
      refine .inr ⟨.inl fun s hs hc hsj => ?_, hserved.imp_right ?_⟩
      · exact Listed.walk_over (hlx.fits _ hmem) s (hlx.mem.mpr ⟨hs, hc, hsj⟩)
      · rintro ⟨f, hf, hk⟩
        have hf : f ∈ u.stack := hf
        rw [hu] at hf
        rcases List.mem_cons.mp hf with rfl | hf
        · rcases hk with hk | ⟨s, hk, -⟩ <;> cases hk
        · exact ⟨f, hf, hk⟩
    · refine hj.restack (.inl rfl) fun f hf hkeep => ?_
      have hf : f ∈ u.stack := hf
      rw [hu] at hf
      rcases List.mem_cons.mp hf with rfl | hf
      · rcases hkeep with hk | hk | ⟨s, hk, -⟩
        · exact absurd (Option.some.inj hk) hoj
        · cases hk
        · cases hk
      · exact hf
  | some a =>
    have hlt := hl.walk_lt hmem
    have hlnext : Enlisted (State.push (.nextStream o a) { u with stack := rest }) (some a) := by
      obtain ⟨xs, hlx⟩ := hl
      exact ⟨xs, (hlx.exempt a).replace hu ⟨hlx.fits _ hmem, fun _ => .inr rfl⟩ rfl rfl⟩
    refine (h.rewalk hu rfl rfl : Toured (State.push (.nextStream o a) { u with stack := rest })
      none).streamDestroy hlnext queued hlt fun g below hb => ?_
    obtain ⟨rfl, -⟩ := List.cons.inj hb
    exact .inl rfl

theorem Toured.resume (h : Toured u none) (hl : Enlisted u none) {f : Frame} {rest : List Frame}
    (hu : u.stack = f :: rest) (queued : Bool) :
    Toured (Registry.resume queued f { u with stack := rest }) none := by
  have hmem : f ∈ u.stack := by rw [hu]; exact List.mem_cons_self
  cases f with
  | user => exact h.returned hl hu
  | clearing s =>
    have hlnext : Enlisted (State.push (.relaying s 0) { u with stack := rest }) none :=
      hl.replace hu (fun xs hl => hl.fits (.clearing s) hmem) rfl rfl
    have hunlink := (h.closing hl hu (g := .relaying s 0) rfl rfl).unlinkRelay hlnext s
    rw [unlinkRelay_push] at hunlink
    exact hunlink
  | relaying s i => exact h.relaying hl hu queued
  | closingSocket k =>
    intro hs
    obtain ⟨ks, hks⟩ := h (hs.suffix ⟨[], rfl⟩)
    exact ⟨_, hks.leave hu⟩
  | walkSockets n => exact h.walkSockets hl hu queued
  | nextSocket k =>
    exact h.of_torn ⟨rfl, rfl, rfl, [], rfl⟩ fun ks hks => ⟨ks, hks.stroll hu⟩
  | walkStreams o n => exact h.walkStreams hl hu queued
  | nextStream o a => exact h.rewalk hu rfl rfl
  | walkFree => exact h.rewalk hu rfl rfl

theorem Ashore.setStreamSocket (s k : ℕ) : Ashore u (setStreamSocket s k u) := by
  unfold Registry.setStreamSocket
  dsimp only
  split
  · exact .refl u
  · have hset : ∀ v : State, Ashore v (v.setStream s fun x => { x with socket := some k }) :=
      fun _ => ⟨rfl, rfl, rfl, [], rfl⟩
    exact ((Ashore.unlinkStream _ _).trans (hset _)).trans (.linkStream _ _)

/-- A stream moves to a socket before `udx_teardown`. -/
theorem Toured.setStreamSocket (h : Toured u x) (hl : Enlisted u e) (ht : u.teardown = false)
    (hc : (u.streams s).closed = false) (k : ℕ) : Toured (setStreamSocket s k u) x := by
  by_cases hne : (u.streams s).socket = some k
  · unfold Registry.setStreamSocket
    rw [if_pos hne]
    exact h
  · obtain ⟨xs, hl⟩ := hl
    refine h.of_torn (.setStreamSocket s k) fun ks hks => ⟨ks, ?_⟩
    rw [setStreamSocket_roster hne]
    refine hks.of_roster hl rfl rfl rfl rfl (fun {f y} hf hy => ?_) fun htrue => ?_
    · -- the stream that moves is open
      have hclosed := (hl.closing_fits hf hy).2
      refine Function.update_of_ne ?_ ..
      rintro rfl
      have hc : u.roster.closed y = false := hc
      rw [hc] at hclosed
      cases hclosed
    · have htrue : u.teardown = true := htrue
      rw [ht] at htrue
      cases htrue

theorem Toured.runCall (h : Toured u none) (hl : Enlisted u none) {c : Call} (hc : c.valid u)
    (hu : u.atUser) : Toured (runCall c u) none := by
  have htop : ∀ g rest, u.stack = g :: rest → g = .user := by
    rintro g rest hg
    rcases hu with hu | ⟨rest', hu⟩ <;> rw [hu] at hg <;> cases hg
    rfl
  cases c with
  | socketInit =>
    by_cases ht : u.teardown = true
    · simp only [Registry.runCall, socketInit]
      rw [if_pos ht]
      exact h
    · have ht := Bool.eq_false_iff.mpr ht
      obtain ⟨xs, hl⟩ := hl
      intro hs
      have hlog : (socketInit u).log = u.log := by
        unfold socketInit
        split <;> rfl
      obtain ⟨ks, hks⟩ := h (hs.suffix ⟨[], hlog⟩)
      refine ⟨u.nsockets :: ks, ?_⟩
      have hfleet : (socketInit u).fleet =
          { r := (socketInit u).roster, link := u.socketLink.add u.socketList u.nsockets,
            head := some u.nsockets, shuts := u.fleet.shuts } := by
        unfold State.fleet socketInit
        rw [if_neg (Bool.eq_false_iff.mp ht)]
      simp only [Registry.runCall]
      rw [hfleet, socketInit_roster ht]
      exact hks.socket hl ht
  | streamInit id =>
    by_cases ht : u.teardown = true
    · simp only [Registry.runCall, Registry.streamInit]
      rw [if_pos ht]
      exact h
    · have ht := Bool.eq_false_iff.mpr ht
      obtain ⟨xs, hl⟩ := hl
      have hashore : Ashore u (Registry.streamInit id u) := by
        unfold Registry.streamInit
        rw [if_neg (Bool.eq_false_iff.mp ht)]
        dsimp only
        have hnew := Ashore.linkStream (u := { u with nstreams := u.nstreams + 1 }.setStream
          u.nstreams fun _ => { localId := id }) none u.nstreams
        split <;> exact Ashore.trans (Ashore.trans ⟨rfl, rfl, rfl, [], rfl⟩ hnew)
          ⟨rfl, rfl, rfl, [], rfl⟩
      refine h.of_torn hashore fun ks hks => ⟨ks, ?_⟩
      simp only [Registry.runCall]
      rw [streamInit_roster ht]
      refine hks.of_roster hl rfl rfl rfl rfl (fun {f y} hf hy => ?_) fun htrue => ?_
      · exact Function.update_of_ne (Nat.ne_of_lt (hl.closing_fits hf hy).1) ..
      · have htrue : u.teardown = true := htrue
        rw [ht] at htrue
        cases htrue
  | connect s k =>
    simp only [Registry.runCall, streamConnect]
    split_ifs with hopen hconn
    · exact h
    · exact h
    · simp only [Bool.or_eq_true, not_or, Bool.not_eq_true] at hopen
      obtain ⟨⟨-, hcl⟩, ht⟩ := hopen
      refine (h.setStream s (f := fun x => { x with connected := true }) rfl).setStreamSocket
        (hl.setStream s (f := fun x => { x with connected := true }) rfl) ht ?_ k
      rw [State.setStream_self]
      exact hcl
  | changeRemote s k ok =>
    simp only [Registry.runCall, streamChangeRemote]
    split_ifs with hopen
    · exact h
    · exact h
    · simp only [Bool.or_eq_true, not_or, Bool.not_eq_true] at hopen
      obtain ⟨⟨-, hcl⟩, ht⟩ := hopen
      exact h.setStreamSocket hl ht hcl k
    · exact h
  | writeEnd s wanted =>
    simp only [Registry.runCall, streamWriteEnd]
    split
    · exact h.setStream s (f := fun x => { x with timewaitWanted := x.timewaitWanted || wanted }) rfl
    · exact h
  | relayTo s d =>
    simp only [Registry.runCall, streamRelayTo]
    split
    · exact h
    · have hnote : Toured (u.note (.relayTo s d (u.streams s) (u.streams d) u.localId)) none :=
        h.congr (.note rfl) (note_roster rfl)
      have hlnote : Enlisted (u.note (.relayTo s d (u.streams s) (u.streams d) u.localId)) none :=
        hl.congr (note_roster rfl)
      exact (hnote.setStream s (f := fun x => { x with relayed := true, relayTo := some d })
        rfl).setRelaying (hlnote.setStream s rfl) d rfl
  | destroy s queued =>
    refine h.streamDestroy hl queued hc fun g rest hg => ?_
    obtain rfl := htop g rest hg
    trivial
  | teardown =>
    exact h.of_torn ⟨rfl, rfl, rfl, [], rfl⟩ fun ks hks => ⟨ks, hks.teardown htop⟩

theorem Toured.step (h : Toured u none) (hl : Enlisted u none) (hs : Step u v) : Toured v none := by
  cases hs with
  | call c hu hc => exact h.runCall hl hc hu
  | returned hu => exact h.returned hl hu
  | event e hu he =>
    have htop : ∀ {f : Frame} g rest, u.stack = g :: rest → Over f g := by
      intro f g rest hg
      rw [hu] at hg
      cases hg
    cases e with
    | closeStream s err => exact h.closeStream hl err he.1 he.2 htop
    | destroySent s =>
      exact h.closeStreamInternal hl (f := fun x => { x with destroyQueued := false }) rfl he.1
        (hl.queued_open he.1 he.2) htop
    | timewaitTimeout t => exact h.congr (.timewaitTimeout t) (timewaitTimeout_roster t)
    | socketClose k =>
      by_cases hk : (u.sockets k).streams = none
      · refine h.socketClose hl (.inl rfl) hk fun _ ks hks =>
          ⟨hks.mem.mpr ⟨he.1, .inl he.2⟩, fun k' hk' => ?_, htop⟩
        rw [hu] at hk'
        cases hk'
      · simp only [Registry.runEvent, Registry.socketClose]
        rw [if_pos hk]
        exact h
  | resume queued hu => exact h.resume hl hu queued

end

theorem Reach.toured {u : State} (h : Reach u) : Toured u none := by
  induction h with
  | init =>
    refine fun _ => ⟨[], .nil _, fun {k} => ?_, nofun, fun k => Nat.zero_le _, nofun, ?_, ?_, ?_,
      nofun, nofun, List.nodup_nil, fun k => ?_⟩
    · simp [State.fleet, State.roster]
    · rintro (_ | _) f g below he <;> cases he
    · rintro (_ | _) k below he <;> cases he
    · rintro (_ | _) k rest he <;> cases he
    · simp [State.fleet, State.roster]
  | step hr hs ih => exact ih.step hr.enlisted hs

/-! ### Each stream and each socket once -/

/-- What is closed was closed once; and when `udx_teardown` and the closes in
it are over, what is open waits for destroy packets to be sent: a stream for
its own, a socket for that of one of its streams. -/
structure TornDown (u : State) : Prop where
  streams : (u.log.filterMap LogEntry.closes).Nodup ∧
    ∀ s, s ∈ u.log.filterMap LogEntry.closes ↔ s < u.nstreams ∧ (u.streams s).closed = true
  sockets : (u.log.filterMap LogEntry.shuts).Nodup ∧
    ∀ k, k ∈ u.log.filterMap LogEntry.shuts ↔ k < u.nsockets ∧ (u.sockets k).closed = true
  /-- The closed sockets have left the list, and the others are in it. -/
  list : u.stack = [] → ∃ ks, Link.Rep u.socketLink u.socketList ks ∧
    ∀ k, k ∈ ks ↔ k < u.nsockets ∧ (u.sockets k).closed = false
  open_streams : u.teardown = true → u.stack = [] →
    ∀ s < u.nstreams, (u.streams s).closed = false → (u.streams s).destroyQueued = true
  open_sockets : u.teardown = true → u.stack = [] → ∀ k < u.nsockets,
    (u.sockets k).closed = false → ∃ s < u.nstreams, (u.streams s).closed = false ∧
      (u.streams s).socket = some k ∧ (u.streams s).destroyQueued = true

/-- A socket that the walks have come to, while none is under way. -/
theorem Roster.Ready.destroying {r : Roster} {j : ℕ} (h : r.Ready none j) (hst : r.stack = []) :
    (∀ s < r.nstreams, r.closed s = false → r.socket s = some j → r.destroying s = true) ∧
      ∃ s < r.nstreams, r.closed s = false ∧ r.socket s = some j := by
  have hno : ∀ {f}, f ∉ r.stack := by
    intro f hf
    rw [hst] at hf
    cases hf
  obtain ⟨hh, hs⟩ := h.resolve_left nofun
  exact ⟨hh.resolve_right fun ⟨f, hf, _⟩ => hno hf, hs.resolve_right fun ⟨f, hf, _⟩ => hno hf⟩

/-- In every run whose closes of a socket lie apart, each stream and each
socket is closed once. -/
theorem Reach.tornOnce {u : State} (h : Reach u) (hs : ClosesApart u) : TornDown u := by
  obtain ⟨xs, hl⟩ := h.enlisted
  obtain ⟨ks, hks⟩ := h.toured hs
  have hqueued : ∀ {s}, s < u.nstreams → (u.streams s).closed = false →
      (u.streams s).destroying = true → (u.streams s).destroyQueued = true := fun hlt hc hd =>
    (hl.queued hlt).mpr ⟨hd, hc⟩
  have hready : u.teardown = true → u.stack = [] → ∀ j ∈ ks, u.roster.Ready none j := by
    intro ht hst
    refine (hks.cover ht).resolve_right ?_
    rintro ⟨f, hf, -⟩
    have hf : f ∈ u.stack := hf
    rw [hst] at hf
    cases hf
  have hopen : ∀ {k}, k < u.nsockets → (u.sockets k).closed = false → k ∈ ks := fun hk ho =>
    hks.mem.mpr ⟨hk, .inl ho⟩
  refine ⟨hl.closes, hks.shuts, fun hst => ⟨ks, hks.rep, fun k => ?_⟩, fun ht hst s hlt hc => ?_,
    fun ht hst k hk ho => ?_⟩
  · refine hks.mem.trans (and_congr_right fun _ => or_iff_left ?_)
    show Frame.closingSocket k ∉ u.stack
    rw [hst]
    exact List.not_mem_nil
  · refine hqueued hlt hc ?_
    have hm := hl.mem_home hlt hc
    cases hsk : u.roster.socket s with
    | none =>
      rw [hsk] at hm
      refine (hl.free ht).resolve_right ?_ s hm
      rintro ⟨f, hf, -⟩
      have hf : f ∈ u.stack := hf
      rw [hst] at hf
      cases hf
    | some k =>
      rw [hsk] at hm
      obtain ⟨hk, ho⟩ := hl.home hm
      exact ((hready ht hst k (hopen hk ho)).destroying hst).1 s hlt hc hsk
  · obtain ⟨hd, s, hlt, hc, hsk⟩ := (hready ht hst k (hopen hk ho)).destroying hst
    exact ⟨s, hlt, hc, hsk, hqueued hlt hc (hd s hlt hc hsk)⟩

end Udx.Registry
