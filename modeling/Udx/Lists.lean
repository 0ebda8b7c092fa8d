/-
# The lists of streams

Every open stream is in the list of its socket, or in that of the streams of
no socket, and a stream leaves its list as it closes. The loops of
`udx_teardown` over a list come to every stream that is in it when they start,
whatever closes in the meantime; past streams that have left the list at most.
Nothing is added to a list once `udx_teardown` has been called.

Key definitions: `Roster`, `Listed`, `Enlisted`.
Key theorems: `Listed.close`, `Enlisted.step`, `Reach.enlisted`.
-/
import Udx.Registry

namespace Udx.Registry

open Serial

/-! ### Frames -/

/-- The stream a frame is closing. -/
def Frame.closing : Frame → Option ℕ
  | .clearing s => some s
  | .relaying s _ => some s
  | _ => none

/-- The list a frame walks. -/
def Frame.list : Frame → Option (Option ℕ)
  | .walkStreams o _ => some o
  | .nextStream o _ => some o
  | .walkFree => some none
  | _ => none

/-- A frame is one of `udx_teardown`. -/
def Frame.tears : Frame → Bool
  | .walkSockets _ | .nextSocket _ | .walkStreams _ _ | .nextStream _ _ | .walkFree => true
  | _ => false

/-- The part of the state that the lists are about. -/
structure Roster where
  closed : ℕ → Bool
  destroying : ℕ → Bool
  queued : ℕ → Bool
  socket : ℕ → Option ℕ
  relaying : ℕ → Cirbuf
  nstreams : ℕ
  /-- The sockets that are closed. -/
  shut : ℕ → Bool
  nsockets : ℕ
  link : Link
  head : Option ℕ → Option ℕ
  teardown : Bool
  stack : List Frame
  /-- The streams that closed, newest first. -/
  closes : List ℕ

/-- The stream that a log entry says was closed. -/
def LogEntry.closes : LogEntry → Option ℕ
  | .streamClosed s _ _ => some s
  | _ => none

def State.roster (u : State) : Roster :=
  { closed := fun s => (u.streams s).closed, destroying := fun s => (u.streams s).destroying,
    queued := fun s => (u.streams s).destroyQueued, socket := fun s => (u.streams s).socket,
    relaying := fun s => (u.streams s).relaying, nstreams := u.nstreams,
    shut := fun k => (u.sockets k).closed, nsockets := u.nsockets, link := u.streamLink,
    head := u.head, teardown := u.teardown, stack := u.stack,
    closes := u.log.filterMap LogEntry.closes }

namespace Roster

/-- Stream `s` is, or was, in list `o`. -/
def Home (r : Roster) (o : Option ℕ) (s : ℕ) : Prop := s < r.nstreams ∧ r.socket s = o

/-- What a walk has passed in a list is being destroyed, and from `n` on it
comes to the rest. -/
def Walk (r : Roster) (xs : List ℕ) (o n : Option ℕ) : Prop :=
  ∃ pre post, xs = pre ++ post ∧ Link.Leads r.link xs (r.Home o) n post ∧
    ∀ s ∈ pre, r.destroying s = true

/-- What holds of a frame on the stack; `e` is a stream whose turn it is to be
destroyed. -/
def Fits (r : Roster) (xs : Option ℕ → List ℕ) (e : Option ℕ) : Frame → Prop
  | .clearing s | .relaying s _ => s < r.nstreams ∧ r.closed s = true
  | .walkStreams o n => r.Walk (xs o) o n
  | .nextStream o a => r.Walk (xs o) o (some a) ∧ (a ∈ xs o → r.destroying a = true ∨ e = some a)
  | _ => True

end Roster

/-- List `o` is `xs o`. -/
structure Listed (r : Roster) (xs : Option ℕ → List ℕ) (e : Option ℕ) : Prop where
  rep : ∀ o, Link.Rep r.link (r.head o) (xs o)
  mem : ∀ {o s}, s ∈ xs o ↔ s < r.nstreams ∧ r.closed s = false ∧ r.socket s = o
  home : ∀ {k s}, s ∈ xs (some k) → k < r.nsockets ∧ r.shut k = false
  held : ∀ {d v}, (r.relaying d).Stored v → v < r.nstreams
  /-- libuv holds the destroy packet of the streams that are being destroyed. -/
  queued : ∀ {s}, s < r.nstreams → (r.queued s = true ↔ r.destroying s = true ∧ r.closed s = false)
  fits : ∀ f ∈ r.stack, r.Fits xs e f
  torn : r.teardown = false → ∀ f ∈ r.stack, f.tears = false
  free : r.teardown = true →
    (∀ s ∈ xs none, r.destroying s = true) ∨ ∃ f ∈ r.stack, f.list = some none
  closes : r.closes.Nodup ∧ ∀ s, s ∈ r.closes ↔ s < r.nstreams ∧ r.closed s = true

/-! ### Operations on the lists -/

namespace Roster

/-- Stream `s` closes, up to its callbacks. -/
def close (s : ℕ) (d : Bool) (r : Roster) : Roster :=
  { r with
    closed := Function.update r.closed s true
    destroying := Function.update r.destroying s d
    queued := Function.update r.queued s false
    link := (r.link.remove (r.head (r.socket s)) s).1
    head := Function.update r.head (r.socket s) (r.link.remove (r.head (r.socket s)) s).2
    stack := .user :: .clearing s :: r.stack
    closes := s :: r.closes }

/-- libuv takes the destroy packet of stream `s`. -/
def queue (s : ℕ) (r : Roster) : Roster :=
  { r with
    destroying := Function.update r.destroying s true
    queued := Function.update r.queued s true }

/-- A new stream, of no socket. -/
def init (r : Roster) : Roster :=
  { r with
    closed := Function.update r.closed r.nstreams false
    destroying := Function.update r.destroying r.nstreams false
    queued := Function.update r.queued r.nstreams false
    socket := Function.update r.socket r.nstreams none
    relaying := Function.update r.relaying r.nstreams (.init 2)
    nstreams := r.nstreams + 1
    link := r.link.add (r.head none) r.nstreams
    head := Function.update r.head none (some r.nstreams) }

/-- Stream `s` moves to socket `k`. -/
def move (s k : ℕ) (r : Roster) : Roster :=
  let p := r.link.remove (r.head (r.socket s)) s
  let head := Function.update r.head (r.socket s) p.2
  { r with
    socket := Function.update r.socket s (some k)
    link := p.1.add (head (some k)) s
    head := Function.update head (some k) (some s) }

end Roster

namespace Listed

variable {r : Roster} {xs : Option ℕ → List ℕ} {e : Option ℕ} {s k : ℕ} {f g : Frame}
  {rest : List Frame}

/-- Lists of different sockets have no stream in common. -/
theorem disjoint (h : Listed r xs e) {o o' : Option ℕ} (ho : o ≠ o') : ∀ x ∈ xs o, x ∉ xs o' := by
  intro x hx hx'
  exact ho ((h.mem.mp hx).2.2.symm.trans (h.mem.mp hx').2.2)

theorem mem_home (h : Listed r xs e) (hs : s < r.nstreams) (hc : r.closed s = false) :
    s ∈ xs (r.socket s) := h.mem.mpr ⟨hs, hc, rfl⟩

/-- Frames come and go. -/
theorem push (h : Listed r xs e) (hf : r.Fits xs e f) (hl : r.teardown = true ∨ f.tears = false) :
    Listed { r with stack := f :: r.stack } xs e := by
  refine ⟨h.rep, h.mem, h.home, h.held, h.queued, fun g hg => ?_, fun ht g hg => ?_,
    fun ht => ?_, h.closes⟩
  · rcases List.mem_cons.mp hg with rfl | hg
    · exact hf
    · exact h.fits g hg
  · rcases List.mem_cons.mp hg with rfl | hg
    · refine hl.resolve_left fun ht' => ?_
      have ht : r.teardown = false := ht
      rw [ht'] at ht
      cases ht
    · exact h.torn ht g hg
  · refine (h.free ht).imp_right ?_
    rintro ⟨g, hg, hgl⟩
    exact ⟨g, List.mem_cons_of_mem _ hg, hgl⟩

theorem pop (h : Listed r xs e) (hs : r.stack = f :: rest)
    (hf : f.list ≠ some none ∨ ∀ s ∈ xs none, r.destroying s = true) :
    Listed { r with stack := rest } xs e := by
  have hmem : ∀ {g}, g ∈ rest → g ∈ r.stack := fun hg => hs ▸ List.mem_cons_of_mem _ hg
  refine ⟨h.rep, h.mem, h.home, h.held, h.queued, fun g hg => h.fits g (hmem hg),
    fun ht g hg => h.torn ht g (hmem hg), fun ht => ?_, h.closes⟩
  rcases hf with hf | hf
  · refine (h.free ht).imp_right ?_
    rintro ⟨g, hg, hgl⟩
    rw [hs] at hg
    rcases List.mem_cons.mp hg with rfl | hg
    · exact absurd hgl hf
    · exact ⟨g, hg, hgl⟩
  · exact .inl hf

/-- A frame goes on as another, in the same walk if in any. -/
theorem replace (h : Listed r xs e) (hs : r.stack = f :: rest) (hg : r.Fits xs e g)
    (hl : g.list = f.list) (htg : g.tears = f.tears) : Listed { r with stack := g :: rest } xs e := by
  have hmem : ∀ {g}, g ∈ rest → g ∈ r.stack := fun hg => hs ▸ List.mem_cons_of_mem _ hg
  have hf : f ∈ r.stack := hs ▸ List.mem_cons_self
  refine ⟨h.rep, h.mem, h.home, h.held, h.queued, fun g' hg' => ?_, fun ht g' hg' => ?_,
    fun ht => ?_, h.closes⟩
  · rcases List.mem_cons.mp hg' with rfl | hg'
    · exact hg
    · exact h.fits g' (hmem hg')
  · rcases List.mem_cons.mp hg' with rfl | hg'
    · exact htg.trans (h.torn ht f hf)
    · exact h.torn ht g' (hmem hg')
  · refine (h.free ht).imp_right ?_
    rintro ⟨g', hg', hgl⟩
    rw [hs] at hg'
    rcases List.mem_cons.mp hg' with rfl | hg'
    · exact ⟨g, List.mem_cons_self, hl.trans hgl⟩
    · exact ⟨g', List.mem_cons_of_mem _ hg', hgl⟩

/-- A socket whose list is not empty has an open stream. -/
theorem live (h : Listed r xs e) (hk : r.head (some k) ≠ none) :
    ∃ s < r.nstreams, r.closed s = false ∧ r.socket s = some k := by
  cases hxs : xs (some k) with
  | nil =>
    have hhead := (h.rep (some k)).head
    rw [hxs] at hhead
    exact absurd hhead hk
  | cons s l =>
    obtain ⟨hlt, hc, hs⟩ := h.mem.mp (show s ∈ xs (some k) by rw [hxs]; exact List.mem_cons_self)
    exact ⟨s, hlt, hc, hs⟩

/-- Nothing walks before `udx_teardown`. -/
theorem tearing (h : Listed r xs e) (hf : f ∈ r.stack) (hft : f.tears = true) :
    r.teardown = true := by
  by_contra hno
  have := h.torn (Bool.eq_false_iff.mpr hno) f hf
  rw [hft] at this
  cases this

theorem closing_fits (h : Listed r xs e) (hf : f ∈ r.stack) (hs : f.closing = some s) :
    s < r.nstreams ∧ r.closed s = true := by
  have hfit := h.fits f hf
  cases f with
  | clearing s' =>
    obtain rfl := Option.some.inj hs
    exact hfit
  | relaying s' i =>
    obtain rfl := Option.some.inj hs
    exact hfit
  | _ => cases hs

/-- Tables lose streams, or hold streams that are there. -/
theorem tables (h : Listed r xs e) {t : ℕ → Cirbuf}
    (ht : ∀ {d v}, (t d).Stored v → (r.relaying d).Stored v ∨ v < r.nstreams) :
    Listed { r with relaying := t } xs e :=
  ⟨h.rep, h.mem, h.home, fun hv => (ht hv).elim h.held id, h.queued, h.fits, h.torn, h.free,
    h.closes⟩

/-- A socket that has no streams is closed. -/
theorem shut (h : Listed r xs e) (hk : r.head (some k) = none) :
    Listed { r with shut := Function.update r.shut k true } xs e := by
  have hempty : xs (some k) = [] := List.head?_eq_none_iff.mp ((h.rep _).head.symm.trans hk)
  refine ⟨h.rep, h.mem, fun {k' x} hx => ?_, h.held, h.queued, h.fits, h.torn, h.free, h.closes⟩
  have hne : k' ≠ k := by
    rintro rfl
    rw [hempty] at hx
    cases hx
  obtain ⟨hlt, ho⟩ := h.home hx
  exact ⟨hlt, (Function.update_of_ne hne ..).trans ho⟩

/-- A new socket has no streams. -/
theorem socket (h : Listed r xs e) :
    Listed { r with
      shut := Function.update r.shut r.nsockets false
      nsockets := r.nsockets + 1
      head := Function.update r.head (some r.nsockets) none } xs e := by
  have hempty : xs (some r.nsockets) = [] := by
    rw [List.eq_nil_iff_forall_not_mem]
    exact fun s hs => absurd (h.home hs).1 (Nat.lt_irrefl _)
  refine ⟨fun o => ?_, h.mem, fun {k' x} hx => ?_, h.held, h.queued, h.fits, h.torn, h.free,
    h.closes⟩
  · dsimp only
    by_cases ho : o = some r.nsockets
    · subst ho
      rw [Function.update_self, hempty]
      exact .nil _
    · rw [Function.update_of_ne ho]
      exact h.rep o
  · obtain ⟨hlt, ho⟩ := h.home hx
    exact ⟨Nat.lt_succ_of_lt hlt, (Function.update_of_ne (Nat.ne_of_lt hlt) ..).trans ho⟩

/-- A walk starts at the head of a list. -/
theorem walk (h : Listed r xs e) (o : Option ℕ) : r.Walk (xs o) o (r.head o) :=
  ⟨[], xs o, rfl, .here (h.rep o).head, fun _ hx => nomatch hx⟩

/-- The walk is at a stream of its list or at one that has left it; it goes on
to the next. -/
theorem walk_next (h : Listed r xs none) {o : Option ℕ} {a : ℕ}
    (hf : r.Fits xs none (.nextStream o a)) : r.Walk (xs o) o (r.link.next a) := by
  obtain ⟨⟨pre, post, hxs, hl, hd⟩, ha⟩ := hf
  rcases hl.some with ⟨tail, rfl⟩ | ⟨hout, hhome, hl⟩
  · refine ⟨pre ++ [a], tail, by rw [hxs]; simp, ?_, fun x hx => ?_⟩
    · have hrep := h.rep o
      rw [hxs] at hrep ⊢
      exact hrep.leads
    · rcases List.mem_append.mp hx with hx | hx
      · exact hd x hx
      · obtain rfl := List.mem_singleton.mp hx
        exact (ha (by rw [hxs]; simp)).resolve_right nofun
  · exact ⟨pre, post, hxs, hl, hd⟩

theorem turn_socket (h : Listed r xs e) {o : Option ℕ} {a : ℕ} (hf : .nextStream o a ∈ r.stack) :
    r.socket a = o := by
  obtain ⟨⟨pre, post, hxs, hl, -⟩, -⟩ := h.fits _ hf
  rcases hl.some with ⟨tail, rfl⟩ | ⟨-, hhome, -⟩
  · exact (h.mem.mp (show a ∈ xs o by rw [hxs]; simp)).2.2
  · exact hhome.2

/-- A walk that is over has passed the whole list. -/
theorem walk_over {o : Option ℕ} {l : List ℕ} (hw : r.Walk l o none) :
    ∀ s ∈ l, r.destroying s = true := by
  obtain ⟨pre, post, hxs, hl, hd⟩ := hw
  rw [hl.none, List.append_nil] at hxs
  rw [hxs]
  exact hd

/-- `udx_teardown` starts. -/
theorem teardown (h : Listed r xs e) (n : Option ℕ) :
    Listed { r with teardown := true, stack := .walkSockets n :: .walkFree :: r.stack } xs e := by
  refine ⟨h.rep, h.mem, h.home, h.held, h.queued, fun g hg => ?_, nofun, fun _ => .inr ?_,
    h.closes⟩
  · rcases List.mem_cons.mp hg with rfl | hg
    · trivial
    rcases List.mem_cons.mp hg with rfl | hg
    · trivial
    · exact h.fits g hg
  · exact ⟨.walkFree, by simp, rfl⟩

/-! ### Leaving a list -/

/-- The other lists, and the rest of its own, stay. -/
theorem rep_remove (h : Listed r xs e) (hs : s ∈ xs (r.socket s)) (o : Option ℕ) :
    Link.Rep (r.link.remove (r.head (r.socket s)) s).1
      (Function.update r.head (r.socket s) (r.link.remove (r.head (r.socket s)) s).2 o)
      (Function.update xs (r.socket s) ((xs (r.socket s)).erase s) o) := by
  by_cases ho : o = r.socket s
  · subst ho
    rw [Function.update_self, Function.update_self]
    exact (h.rep _).remove hs
  · rw [Function.update_of_ne ho, Function.update_of_ne ho]
    exact (h.rep _).remove_other hs (h.rep o) (h.disjoint (Ne.symm ho))

theorem mem_remove (h : Listed r xs e) (hs : s ∈ xs (r.socket s)) {o : Option ℕ} {x : ℕ} :
    x ∈ Function.update xs (r.socket s) ((xs (r.socket s)).erase s) o ↔ x ∈ xs o ∧ x ≠ s := by
  by_cases ho : o = r.socket s
  · subst ho
    rw [Function.update_self, (h.rep _).nodup.mem_erase_iff]
    exact and_comm
  · rw [Function.update_of_ne ho]
    refine ⟨fun hx => ⟨hx, ?_⟩, And.left⟩
    rintro rfl
    exact h.disjoint ho x hx hs

theorem erase_append {l l' : List ℕ} (hn : (l ++ l').Nodup) :
    (l ++ l').erase s = l.erase s ++ l'.erase s := by
  obtain ⟨-, -, hd⟩ := List.nodup_append.mp hn
  rw [List.erase_append]
  split
  · next hs => rw [List.erase_of_not_mem fun hs' => hd s hs s hs' rfl]
  · next hs => rw [List.erase_of_not_mem hs]

/-- A walk goes on while streams close. -/
theorem walk_remove (h : Listed r xs e) (hs : s ∈ xs (r.socket s)) {d : Bool} {o n : Option ℕ}
    (hw : r.Walk (xs o) o n) :
    (r.close s d).Walk (Function.update xs (r.socket s) ((xs (r.socket s)).erase s) o) o n := by
  obtain ⟨pre, post, hxs, hl, hd⟩ := hw
  have hold : ∀ {x}, x ≠ s → (r.close s d).destroying x = r.destroying x := fun hx =>
    Function.update_of_ne hx ..
  by_cases ho : o = r.socket s
  · subst ho
    have hn := (h.rep (r.socket s)).nodup
    refine ⟨pre.erase s, post.erase s, ?_, ?_, fun x hx => ?_⟩
    · rw [Function.update_self, hxs]
      rw [hxs] at hn
      exact erase_append hn
    · rw [Function.update_self]
      exact hl.remove (h.rep _) hxs hs ⟨(h.mem.mp hs).1, rfl⟩
    · have hx' := List.mem_of_mem_erase hx
      have hne : x ≠ s := by
        rintro rfl
        rw [hxs] at hn
        exact (List.Nodup.not_mem_erase (List.nodup_append.mp hn).1) hx
      rw [hold hne]
      exact hd x hx'
  · rw [Function.update_of_ne ho]
    refine ⟨pre, post, hxs, hl.congr fun v hv hp => ?_, fun x hx => ?_⟩
    · refine (h.rep _).remove_next_stale hs (.inl fun hv' => ho ?_)
      exact hp.2.symm.trans (h.mem.mp hv').2.2
    · have hx' : x ∈ xs o := by rw [hxs]; exact List.mem_append_left _ hx
      rw [hold (h.mem_remove hs (o := o) |>.mp (by rwa [Function.update_of_ne ho])).2]
      exact hd x hx

/-- A stream closes. -/
theorem close (h : Listed r xs e) (hs : s ∈ xs (r.socket s)) (d : Bool)
    (he : e = none ∨ e = some s) :
    Listed (r.close s d) (Function.update xs (r.socket s) ((xs (r.socket s)).erase s)) none := by
  obtain ⟨hlt, hc, -⟩ := h.mem.mp hs
  have hold : ∀ {x}, x ≠ s → (r.close s d).closed x = r.closed x ∧
      (r.close s d).destroying x = r.destroying x ∧ (r.close s d).queued x = r.queued x := fun hx =>
    ⟨Function.update_of_ne hx .., Function.update_of_ne hx .., Function.update_of_ne hx ..⟩
  have hself : (r.close s d).closed s = true := Function.update_self ..
  refine ⟨h.rep_remove hs, fun {o x} => ?_, fun {k x} hx => h.home (h.mem_remove hs |>.mp hx).1,
    h.held, fun {x} hx => ?_, fun g hg => ?_, fun ht g hg => ?_, fun ht => ?_, ?_⟩
  · rw [h.mem_remove hs, h.mem]
    by_cases hxs : x = s
    · subst hxs
      rw [hself]
      simp
    · rw [(hold hxs).1]
      simp only [ne_eq, hxs, not_false_eq_true, and_true]
      exact Iff.rfl
  · by_cases hxs : x = s
    · subst hxs
      rw [hself]
      have hq : (r.close x d).queued x = false := Function.update_self ..
      rw [hq]
      simp
    · rw [(hold hxs).1, (hold hxs).2.1, (hold hxs).2.2]
      exact h.queued hx
  · have hclosing : ∀ {x}, x < r.nstreams ∧ r.closed x = true →
        x < r.nstreams ∧ (r.close s d).closed x = true := by
      rintro x ⟨hlt, hcx⟩
      by_cases hxs : x = s
      · exact ⟨hlt, hxs ▸ hself⟩
      · exact ⟨hlt, (hold hxs).1.trans hcx⟩
    rcases List.mem_cons.mp hg with rfl | hg
    · trivial
    rcases List.mem_cons.mp hg with rfl | hg
    · exact ⟨hlt, hself⟩
    have hfits := h.fits g hg
    cases g with
    | clearing x => exact hclosing hfits
    | relaying x i => exact hclosing hfits
    | walkStreams o n => exact h.walk_remove hs hfits
    | nextStream o a =>
      refine ⟨h.walk_remove hs hfits.1, fun ha => .inl ?_⟩
      obtain ⟨ha, hne⟩ := h.mem_remove hs |>.mp ha
      rw [(hold hne).2.1]
      refine (hfits.2 ha).resolve_right fun hea => ?_
      rcases he with he | he <;> rw [he] at hea
      · cases hea
      · exact hne (Option.some.inj hea).symm
    | _ => trivial
  · rcases List.mem_cons.mp hg with rfl | hg
    · rfl
    rcases List.mem_cons.mp hg with rfl | hg
    · rfl
    · exact h.torn ht g hg
  · rcases h.free ht with hd | ⟨g, hg, hgl⟩
    · refine .inl fun x hx => ?_
      obtain ⟨hx, hne⟩ := h.mem_remove hs |>.mp hx
      rw [(hold hne).2.1]
      exact hd x hx
    · exact .inr ⟨g, List.mem_cons_of_mem _ (List.mem_cons_of_mem _ hg), hgl⟩
  · obtain ⟨hn, hiff⟩ := h.closes
    refine ⟨List.nodup_cons.mpr ⟨fun hm => ?_, hn⟩, fun x => ?_⟩
    · have := ((hiff s).mp hm).2
      rw [hc] at this
      cases this
    · show x ∈ s :: r.closes ↔ _
      rw [List.mem_cons, hiff]
      by_cases hxs : x = s
      · subst hxs
        rw [hself]
        simp only [true_or, and_true, true_iff]
        exact hlt
      · rw [(hold hxs).1]
        simp only [hxs, false_or]
        exact Iff.rfl

/-- libuv takes the destroy packet of an open stream. -/
theorem queue (h : Listed r xs e) (hs : s ∈ xs (r.socket s)) (he : e = none ∨ e = some s) :
    Listed (r.queue s) xs none := by
  obtain ⟨hlt, hc, -⟩ := h.mem.mp hs
  have hold : ∀ {x}, x ≠ s → (r.queue s).destroying x = r.destroying x ∧
      (r.queue s).queued x = r.queued x := fun hx =>
    ⟨Function.update_of_ne hx .., Function.update_of_ne hx ..⟩
  have hself : (r.queue s).destroying s = true := Function.update_self ..
  have hmono : ∀ {x}, r.destroying x = true → (r.queue s).destroying x = true := by
    intro x hx
    by_cases hxs : x = s
    · exact hxs ▸ hself
    · exact (hold hxs).1.trans hx
  have hwalk : ∀ {o n}, r.Walk (xs o) o n → (r.queue s).Walk (xs o) o n := by
    rintro o n ⟨pre, post, hxs, hl, hd⟩
    exact ⟨pre, post, hxs, hl, fun x hx => hmono (hd x hx)⟩
  refine ⟨h.rep, h.mem, h.home, h.held, fun {x} hx => ?_, fun g hg => ?_, h.torn, fun ht => ?_,
    h.closes⟩
  · by_cases hxs : x = s
    · subst hxs
      have hq : (r.queue x).queued x = true := Function.update_self ..
      rw [hself, hq]
      simp only [true_and, true_iff]
      exact hc
    · rw [(hold hxs).1, (hold hxs).2]
      exact h.queued hx
  · have hfits := h.fits g hg
    cases g with
    | clearing x => exact hfits
    | relaying x i => exact hfits
    | walkStreams o n => exact hwalk hfits
    | nextStream o a =>
      refine ⟨hwalk hfits.1, fun ha => .inl ?_⟩
      rcases hfits.2 ha with hd | hea
      · exact hmono hd
      · rcases he with he | he <;> rw [he] at hea
        · cases hea
        · obtain rfl := Option.some.inj hea
          exact hself
    | _ => trivial
  · exact (h.free ht).imp_left fun hd x hx => hmono (hd x hx)

/-- It is the turn of a stream. -/
theorem exempt (h : Listed r xs none) (a : ℕ) : Listed r xs (some a) := by
  refine ⟨h.rep, h.mem, h.home, h.held, h.queued, fun g hg => ?_, h.torn, h.free, h.closes⟩
  have hfits := h.fits g hg
  cases g with
  | nextStream o b => exact ⟨hfits.1, fun hb => .inl ((hfits.2 hb).resolve_right nofun)⟩
  | _ => exact hfits

/-- Nothing is left to do for a stream that is being destroyed or was closed. -/
theorem settle (h : Listed r xs e) (he : e = none ∨ e = some s)
    (hs : r.closed s = true ∨ r.destroying s = true) : Listed r xs none := by
  refine ⟨h.rep, h.mem, h.home, h.held, h.queued, fun g hg => ?_, h.torn, h.free, h.closes⟩
  have hfits := h.fits g hg
  cases g with
  | nextStream o a =>
    refine ⟨hfits.1, fun ha => .inl ((hfits.2 ha).elim id fun hea => ?_)⟩
    rcases he with he | he <;> rw [he] at hea
    · cases hea
    · obtain rfl := Option.some.inj hea
      refine hs.resolve_left fun hc => ?_
      rw [(h.mem.mp ha).2.1] at hc
      cases hc
  | _ => exact hfits

/-! ### Coming to a list -/

/-- A new stream is the head of the list of no socket. -/
theorem init (h : Listed r xs e) (ht : r.teardown = false) :
    Listed r.init (Function.update xs none (r.nstreams :: xs none)) e := by
  have hfresh : ∀ {o x}, x ∈ xs o → x ≠ r.nstreams := fun hx => Nat.ne_of_lt (h.mem.mp hx).1
  have hold : ∀ {x}, x ≠ r.nstreams → r.init.closed x = r.closed x ∧
      r.init.destroying x = r.destroying x ∧ r.init.queued x = r.queued x ∧
      r.init.socket x = r.socket x ∧ r.init.relaying x = r.relaying x := fun hx =>
    ⟨Function.update_of_ne hx .., Function.update_of_ne hx .., Function.update_of_ne hx ..,
      Function.update_of_ne hx .., Function.update_of_ne hx ..⟩
  have hclosed : r.init.closed r.nstreams = false := Function.update_self ..
  have hsocket : r.init.socket r.nstreams = none := Function.update_self ..
  have hmem : ∀ {o x}, x ∈ Function.update xs none (r.nstreams :: xs none) o ↔
      x ∈ xs o ∨ o = none ∧ x = r.nstreams := by
    intro o x
    by_cases ho : o = none
    · subst ho
      rw [Function.update_self, List.mem_cons]
      simp only [true_and]
      exact or_comm
    · rw [Function.update_of_ne ho]
      simp [ho]
  refine ⟨fun o => ?_, fun {o x} => ?_, fun {k x} hx => ?_, fun {d v} hv => ?_,
    fun {x} hx => ?_, fun g hg => ?_, h.torn, fun ht' => ?_, h.closes.1, fun x => ?_⟩
  · have hn : ∀ o, r.nstreams ∉ xs o := fun o hx => hfresh hx rfl
    by_cases ho : o = none
    · subst ho
      rw [Function.update_self]
      have hhead : r.init.head none = some r.nstreams := by simp [Roster.init]
      rw [hhead]
      exact (h.rep none).add (hn none)
    · have hhead : r.init.head o = r.head o := Function.update_of_ne ho ..
      rw [Function.update_of_ne ho, hhead]
      refine (h.rep o).add_other (hn o) fun x hx => h.disjoint (Ne.symm ho) x ?_
      rw [(h.rep none).head] at hx
      exact List.mem_of_mem_head? hx
  · rw [hmem, h.mem]
    by_cases hx : x = r.nstreams
    · subst hx
      rw [hclosed, hsocket]
      show _ ↔ r.nstreams < r.nstreams + 1 ∧ _
      simp only [Nat.lt_irrefl, false_and, false_or, and_true, Nat.lt_succ_self, true_and]
      exact eq_comm
    · rw [(hold hx).1, (hold hx).2.2.2.1]
      show _ ↔ x < r.nstreams + 1 ∧ _
      have : x < r.nstreams + 1 ↔ x < r.nstreams := by omega
      simp [hx, this]
  · rcases hmem.mp hx with hx | ⟨ho, -⟩
    · exact h.home hx
    · cases ho
  · by_cases hd : d = r.nstreams
    · subst hd
      have hnew : r.init.relaying r.nstreams = .init 2 := Function.update_self ..
      rw [hnew] at hv
      obtain ⟨i, hi⟩ := hv
      cases hi
    · rw [(hold hd).2.2.2.2] at hv
      exact Nat.lt_succ_of_lt (h.held hv)
  · by_cases hxn : x = r.nstreams
    · subst hxn
      have hq : r.init.queued r.nstreams = false := Function.update_self ..
      have hd : r.init.destroying r.nstreams = false := Function.update_self ..
      rw [hq, hd]
      simp
    · rw [(hold hxn).1, (hold hxn).2.1, (hold hxn).2.2.1]
      exact h.queued (Nat.lt_of_le_of_ne (Nat.le_of_lt_succ hx) hxn)
  · have hlist := h.torn ht g hg
    have hclosing : ∀ {x}, x < r.nstreams ∧ r.closed x = true →
        x < r.nstreams + 1 ∧ r.init.closed x = true := by
      rintro x ⟨hlt, hc⟩
      exact ⟨Nat.lt_succ_of_lt hlt, (hold (Nat.ne_of_lt hlt)).1.trans hc⟩
    have hfits := h.fits g hg
    cases g with
    | clearing x => exact hclosing hfits
    | relaying x i => exact hclosing hfits
    | walkStreams o n => cases hlist
    | nextStream o a => cases hlist
    | _ => trivial
  · have ht'' : r.teardown = true := ht'
    rw [ht] at ht''
    cases ht''
  · show x ∈ r.closes ↔ x < r.nstreams + 1 ∧ _
    rw [h.closes.2]
    by_cases hx : x = r.nstreams
    · subst hx
      rw [hclosed]
      simp
    · rw [(hold hx).1]
      have : x < r.nstreams + 1 ↔ x < r.nstreams := by omega
      rw [this]

/-- An open stream becomes the head of the list of an open socket. -/
theorem move (h : Listed r xs e) (ht : r.teardown = false) (hs : s ∈ xs (r.socket s))
    (hk : k < r.nsockets) (ho : r.shut k = false) :
    ∃ xs', Listed (r.move s k) xs' e := by
  obtain ⟨hlt, hc, -⟩ := h.mem.mp hs
  let ys := Function.update xs (r.socket s) ((xs (r.socket s)).erase s)
  let hd := Function.update r.head (r.socket s) (r.link.remove (r.head (r.socket s)) s).2
  have hrep : ∀ o, Link.Rep (r.link.remove (r.head (r.socket s)) s).1 (hd o) (ys o) :=
    h.rep_remove hs
  have hys : ∀ {o x}, x ∈ ys o ↔ x ∈ xs o ∧ x ≠ s := h.mem_remove hs
  have hgone : ∀ o, s ∉ ys o := fun o hx => (hys.mp hx).2 rfl
  have hold : ∀ {x}, x ≠ s → (r.move s k).socket x = r.socket x := fun hx =>
    Function.update_of_ne hx ..
  have hself : (r.move s k).socket s = some k := Function.update_self ..
  have hmem : ∀ {o x}, x ∈ Function.update ys (some k) (s :: ys (some k)) o ↔
      x ∈ ys o ∨ o = some k ∧ x = s := by
    intro o x
    by_cases ho : o = some k
    · subst ho
      rw [Function.update_self, List.mem_cons]
      simp only [true_and]
      exact or_comm
    · rw [Function.update_of_ne ho]
      simp [ho]
  refine ⟨Function.update ys (some k) (s :: ys (some k)), fun o => ?_, fun {o x} => ?_,
    fun {k' x} hx => ?_, h.held, h.queued, fun g hg => ?_, h.torn, fun ht' => ?_, h.closes⟩
  · by_cases hok : o = some k
    · subst hok
      have hhead : (r.move s k).head (some k) = some s := by simp [Roster.move]
      rw [Function.update_self, hhead]
      exact (hrep (some k)).add (hgone (some k))
    · have hhead : (r.move s k).head o = hd o := Function.update_of_ne hok ..
      rw [Function.update_of_ne hok, hhead]
      refine (hrep o).add_other (hgone o) fun x hx hx' => ?_
      have hx : hd (some k) = some x := hx
      rw [(hrep (some k)).head] at hx
      exact h.disjoint (Ne.symm hok) x (hys.mp (List.mem_of_mem_head? hx)).1 (hys.mp hx').1
  · rw [hmem, hys, h.mem]
    by_cases hx : x = s
    · subst hx
      rw [hself]
      simp only [ne_eq, not_true_eq_false, and_false, false_or, and_true]
      refine ⟨fun ho => ⟨hlt, hc, ho.symm⟩, fun ho => ho.2.2.symm⟩
    · rw [hold hx]
      simp only [ne_eq, hx, not_false_eq_true, and_true, and_false, or_false]
      exact Iff.rfl
  · rcases hmem.mp hx with hx | ⟨hko, -⟩
    · exact h.home (hys.mp hx).1
    · obtain rfl := Option.some.inj hko
      exact ⟨hk, ho⟩
  · have hlist := h.torn ht g hg
    have hfits := h.fits g hg
    cases g with
    | clearing x => exact hfits
    | relaying x i => exact hfits
    | walkStreams o n => cases hlist
    | nextStream o a => cases hlist
    | _ => trivial
  · have ht'' : r.teardown = true := ht'
    rw [ht] at ht''
    cases ht''

end Listed

/-! ### Operations of the program -/

/-- Every open stream is in its list; but `e`, which is to be destroyed, all
that a walk of `udx_teardown` has passed is being destroyed. -/
def Enlisted (u : State) (e : Option ℕ) : Prop := ∃ xs, Listed u.roster xs e

section

variable {u v : State} {e : Option ℕ} {s k : ℕ}

theorem Enlisted.congr (h : Enlisted u e) (hr : v.roster = u.roster) : Enlisted v e := by
  obtain ⟨xs, h⟩ := h
  exact ⟨xs, hr ▸ h⟩

theorem setStream_roster {f : Stream → Stream} {c w r : Bool} {t : Option ℕ} {id : SeqNo}
    (hf : f (u.streams s) = { u.streams s with
      localId := id, connected := c, timewaitWanted := w, relayed := r, relayTo := t }) :
    (u.setStream s f).roster = u.roster := by
  unfold State.roster State.setStream
  congr 1 <;> funext x <;> by_cases hx : x = s <;> simp [hx, hf]

/-- The lists do not depend on what a stream is connected to, or relays to. -/
theorem Enlisted.setStream (h : Enlisted u e) (s : ℕ) {f : Stream → Stream} {c w r : Bool}
    {t : Option ℕ} {id : SeqNo} (hf : f (u.streams s) = { u.streams s with
      localId := id, connected := c, timewaitWanted := w, relayed := r, relayTo := t }) :
    Enlisted (u.setStream s f) e := h.congr (setStream_roster hf)

theorem setSocket_roster {f : Socket → Socket}
    (hs : (f (u.sockets k)).streams = (u.sockets k).streams)
    (hc : (f (u.sockets k)).closed = (u.sockets k).closed) :
    (u.setSocket k f).roster = u.roster := by
  unfold State.roster State.setSocket State.head
  congr 1
  · funext x
    by_cases hx : x = k <;> simp [hx, hc]
  · funext o
    cases o with
    | none => rfl
    | some x => by_cases hx : x = k <;> simp [hx, hs]

theorem setHead_roster (o h : Option ℕ) :
    (u.setHead o h).roster = { u.roster with head := Function.update u.roster.head o h } := by
  cases o with
  | none =>
    unfold State.setHead State.roster
    congr 1
    funext o
    cases o <;> simp [State.head]
  | some k =>
    unfold State.setHead State.roster State.setSocket State.head
    congr 1
    · funext x
      by_cases hx : x = k <;> simp [hx]
    · funext o
      cases o with
      | none => simp
      | some x => by_cases hx : x = k <;> simp [hx]

theorem note_roster {l : LogEntry} (hl : l.closes = none) : (u.note l).roster = u.roster := by
  unfold State.roster State.note
  rw [List.filterMap_cons_none hl]
  rfl

theorem check_roster (a : Site) (p : Prop) [Decidable p] : (u.check a p).roster = u.roster := by
  unfold State.check
  split
  · rfl
  · exact note_roster rfl

theorem unlinkStream_roster (o : Option ℕ) : (unlinkStream o s u).roster =
    { u.roster with
      link := (u.roster.link.remove (u.roster.head o) s).1
      head := Function.update u.roster.head o (u.roster.link.remove (u.roster.head o) s).2 } := by
  unfold unlinkStream
  rw [setHead_roster]
  rfl

theorem linkStream_roster (o : Option ℕ) : (linkStream o s u).roster =
    { u.roster with
      link := u.roster.link.add (u.roster.head o) s
      head := Function.update u.roster.head o (some s) } := by
  unfold linkStream
  rw [setHead_roster]
  rfl

theorem setStreamSocket_roster (hne : (u.streams s).socket ≠ some k) :
    (setStreamSocket s k u).roster = u.roster.move s k := by
  have hset : ∀ v : State, (v.setStream s fun x => { x with socket := some k }).roster =
      { v.roster with socket := Function.update v.roster.socket s (some k) } := by
    intro v
    unfold State.roster State.setStream
    congr 1 <;> funext x <;> by_cases hx : x = s <;> simp [hx]
  unfold setStreamSocket
  rw [if_neg hne]
  dsimp only
  rw [linkStream_roster, hset, unlinkStream_roster]
  rfl

theorem Enlisted.setStreamSocket (h : Enlisted u e) (ht : u.teardown = false)
    (hs : s < u.nstreams) (hc : (u.streams s).closed = false) (hk : k < u.nsockets)
    (ho : (u.sockets k).closed = false) : Enlisted (setStreamSocket s k u) e := by
  obtain ⟨xs, h⟩ := h
  by_cases hne : (u.streams s).socket = some k
  · unfold Registry.setStreamSocket
    rw [if_pos hne]
    exact ⟨xs, h⟩
  · unfold Enlisted
    rw [setStreamSocket_roster hne]
    exact h.move ht (h.mem_home hs hc) hk ho

theorem entrySet_roster (id : SeqNo) (x : Entry) : (entrySet id x u).roster = u.roster := rfl

theorem dropTimewait_roster (t : ℕ) : (dropTimewait t u).roster = u.roster :=
  setSocket_roster rfl rfl

theorem timewaitTimeout_roster (t : ℕ) : (timewaitTimeout t u).roster = u.roster :=
  (dropTimewait_roster t).trans (check_roster .timewaitEntry _)

theorem closeEntry_roster (s : ℕ) : (closeEntry s u).roster = u.roster := by
  unfold closeEntry
  dsimp only
  split
  · exact setSocket_roster rfl rfl
  · rfl

theorem setFlags_roster {f : Stream → Stream} {d w q : Bool}
    (hf : f (u.streams s) = { u.streams s with
      destroying := d, timewaitWanted := w, destroyQueued := q }) :
    (u.setStream s f).roster = { u.roster with
      destroying := Function.update u.roster.destroying s d
      queued := Function.update u.roster.queued s q } := by
  unfold State.roster State.setStream
  congr 1 <;> funext x <;> by_cases hx : x = s <;> simp [hx, hf]

theorem markClosed_roster : (markClosed s u).roster = { u.roster with
    closed := Function.update u.roster.closed s true
    closes := s :: u.roster.closes } := by
  unfold markClosed State.note State.roster State.setStream
  congr 1 <;> funext x <;> by_cases hx : x = s <;> simp [hx]

/-- `close_stream_internal` of a stream whose flags are changed first. -/
theorem closeStreamInternal_roster {f : Stream → Stream} {d w : Bool}
    (hf : f (u.streams s) = { u.streams s with
      destroying := d, timewaitWanted := w, destroyQueued := false }) :
    (closeStreamInternal s (u.setStream s f)).roster = u.roster.close s d := by
  have hpush : ∀ (v : State) f, (v.push f).roster =
      { v.roster with stack := f :: v.roster.stack } := fun _ _ => rfl
  have hsocket : ∀ v : State, ((markClosed s v).streams s).socket = v.roster.socket s := by
    intro v
    unfold markClosed State.note State.setStream
    simp [State.roster]
  unfold closeStreamInternal
  dsimp only
  rw [hpush, hpush, closeEntry_roster, unlinkStream_roster, hsocket, markClosed_roster,
    check_roster, setFlags_roster hf]
  rfl

theorem Enlisted.closeStreamInternal (h : Enlisted u e) {f : Stream → Stream} {d w : Bool}
    (hf : f (u.streams s) = { u.streams s with
      destroying := d, timewaitWanted := w, destroyQueued := false })
    (hs : s < u.nstreams) (hc : (u.streams s).closed = false) (he : e = none ∨ e = some s) :
    Enlisted (closeStreamInternal s (u.setStream s f)) none := by
  obtain ⟨xs, h⟩ := h
  unfold Enlisted
  rw [closeStreamInternal_roster hf]
  exact ⟨_, h.close (h.mem_home hs hc) d he⟩

/-- A stream that is not being destroyed has no packet queued. -/
theorem Enlisted.not_queued (h : Enlisted u e) (hs : s < u.nstreams)
    (hd : (u.streams s).destroying = false) : (u.streams s).destroyQueued = false := by
  obtain ⟨xs, h⟩ := h
  rw [Bool.eq_false_iff]
  intro hq
  have hd' : (u.streams s).destroying = true := ((h.queued (s := s) hs).mp hq).1
  rw [hd] at hd'
  cases hd'

theorem Enlisted.queued_open (h : Enlisted u e) (hs : s < u.nstreams)
    (hq : (u.streams s).destroyQueued = true) : (u.streams s).closed = false := by
  obtain ⟨xs, h⟩ := h
  exact ((h.queued (s := s) hs).mp hq).2

theorem Enlisted.closeStream (h : Enlisted u e) (err : Bool) (hs : s < u.nstreams)
    (hc : (u.streams s).closed = false) (he : e = none ∨ e = some s) :
    Enlisted (closeStream s err u) none := by
  obtain ⟨w, ⟨hd, heq⟩ | ⟨hd, heq⟩⟩ := closeStream_cases s err u
  · obtain ⟨xs, hl⟩ := h
    rw [heq]
    exact Enlisted.setStream ⟨xs, hl.settle he (.inr hd)⟩ s rfl
  · rw [heq]
    exact h.closeStreamInternal (d := (u.streams s).destroying) (w := w)
      (by rw [← h.not_queued hs hd]) hs hc he

theorem Enlisted.streamDestroy (h : Enlisted u e) (queued : Bool) (hs : s < u.nstreams)
    (he : e = none ∨ e = some s) : Enlisted (streamDestroy s queued u) none := by
  obtain ⟨hdone, heq⟩ | ⟨⟨hc, hd⟩, ⟨d, heq⟩ | heq⟩ := streamDestroy_cases s queued u
  · obtain ⟨xs, hl⟩ := h
    rw [heq]
    exact ⟨xs, hl.settle he hdone⟩
  · rw [heq]
    exact h.closeStreamInternal (d := d) (w := false) (by rw [← h.not_queued hs hd]) hs hc he
  · obtain ⟨xs, hl⟩ := h
    refine ⟨xs, ?_⟩
    rw [heq, setFlags_roster (d := true) (q := true) (w := false) rfl]
    exact hl.queue (hl.mem_home hs hc) he

/-- A frame outside the walks over streams comes or goes. -/
theorem Enlisted.push (h : Enlisted u e) {f : Frame} (hf : f.closing = none) (hl : f.list = none)
    (ht : u.teardown = true ∨ f.tears = false) : Enlisted (u.push f) e := by
  obtain ⟨xs, h⟩ := h
  refine ⟨xs, h.push ?_ ht⟩
  cases f with
  | clearing s => cases hf
  | relaying s i => cases hf
  | walkStreams o n => cases hl
  | nextStream o a => cases hl
  | _ => trivial

theorem Enlisted.pop (h : Enlisted u e) {f : Frame} {rest : List Frame} (hu : u.stack = f :: rest)
    (hl : f.list = none) : Enlisted { u with stack := rest } e := by
  obtain ⟨xs, h⟩ := h
  exact ⟨xs, h.pop hu (.inl (by rw [hl]; simp))⟩

theorem Enlisted.replace (h : Enlisted u e) {f g : Frame} {rest : List Frame}
    (hu : u.stack = f :: rest) (hg : ∀ xs, Listed u.roster xs e → u.roster.Fits xs e g)
    (hl : g.list = f.list) (ht : g.tears = f.tears) :
    Enlisted (State.push g { u with stack := rest }) e := by
  obtain ⟨xs, h⟩ := h
  exact ⟨xs, h.replace hu (hg xs h) hl ht⟩

/-- A walk stands at a stream that is there. -/
theorem Enlisted.walk_lt (h : Enlisted u e) {o : Option ℕ} (hf : .walkStreams o (some s) ∈ u.stack) :
    s < u.nstreams := by
  obtain ⟨xs, h⟩ := h
  obtain ⟨pre, post, hxs, hleads, -⟩ := h.fits _ hf
  rcases hleads.some with ⟨tail, rfl⟩ | ⟨-, hhome, -⟩
  · exact (h.mem.mp (show s ∈ xs o by rw [hxs]; simp)).1
  · exact hhome.1

theorem Enlisted.torn (h : Enlisted u e) {f : Frame} (hf : f ∈ u.stack) (ht : f.tears = true) :
    u.teardown = true := by
  obtain ⟨xs, h⟩ := h
  exact h.tearing hf ht

theorem flush_roster (q : List ℕ) :
    (q.foldl (fun u t => timewaitTimeout t u) u).roster = u.roster := by
  induction q generalizing u with
  | nil => rfl
  | cons t rest ih => exact ih.trans (timewaitTimeout_roster t)

theorem socketClose_roster (hk : (u.sockets k).streams = none) : (socketClose k u).roster =
    { u.roster with
      shut := Function.update u.roster.shut k true
      stack := .user :: .closingSocket k :: u.stack } := by
  have hshut : (u.setSocket k fun x => { x with closed := true }).roster =
      { u.roster with shut := Function.update u.roster.shut k true } := by
    unfold State.roster State.setSocket State.head
    congr 1
    · funext x
      by_cases hx : x = k <;> simp [hx]
    · funext o
      cases o with
      | none => rfl
      | some x => by_cases hx : x = k <;> simp [hx]
  have hpush : ∀ (v : State) f, (v.push f).roster =
      { v.roster with stack := f :: v.roster.stack } := fun _ _ => rfl
  unfold socketClose
  rw [if_neg (not_not.mpr hk)]
  dsimp only
  rw [hpush, hpush, flush_roster, note_roster rfl, hshut]
  rfl

theorem Enlisted.socketClose (h : Enlisted u e) (k : ℕ) : Enlisted (socketClose k u) e := by
  by_cases hk : (u.sockets k).streams = none
  · obtain ⟨xs, h⟩ := h
    unfold Enlisted
    rw [socketClose_roster hk]
    exact ⟨xs, ((h.shut hk).push (f := .closingSocket k) trivial (.inr rfl)).push (f := .user) trivial
      (.inr rfl)⟩
  · unfold Registry.socketClose
    rw [if_pos hk]
    exact h

theorem streamInit_roster (ht : u.teardown = false) (id : SeqNo) :
    (streamInit id u).roster = u.roster.init := by
  have hset : ({ u with nstreams := u.nstreams + 1 }.setStream u.nstreams fun _ =>
      { localId := id }).roster =
      { u.roster with
        closed := Function.update u.roster.closed u.nstreams false
        destroying := Function.update u.roster.destroying u.nstreams false
        queued := Function.update u.roster.queued u.nstreams false
        socket := Function.update u.roster.socket u.nstreams none
        relaying := Function.update u.roster.relaying u.nstreams (.init 2)
        nstreams := u.nstreams + 1 } := by
    unfold State.roster State.setStream
    congr 1 <;> funext x <;> by_cases hx : x = u.nstreams <;> simp [hx]
  have hnew : (entrySet id (.stream u.nstreams) (linkStream none u.nstreams
      ({ u with nstreams := u.nstreams + 1 }.setStream u.nstreams fun _ =>
        { localId := id }))).roster = u.roster.init := by
    rw [entrySet_roster, linkStream_roster, hset]
    rfl
  unfold streamInit
  rw [if_neg (Bool.eq_false_iff.mp ht)]
  dsimp only
  split
  · exact (dropTimewait_roster _).trans hnew
  · exact hnew

theorem Enlisted.streamInit (h : Enlisted u e) (id : SeqNo) : Enlisted (streamInit id u) e := by
  by_cases ht : u.teardown = true
  · unfold Registry.streamInit
    rw [if_pos ht]
    exact h
  · have ht := Bool.eq_false_iff.mpr ht
    obtain ⟨xs, h⟩ := h
    unfold Enlisted
    rw [streamInit_roster ht]
    exact ⟨_, h.init ht⟩

theorem socketInit_roster (ht : u.teardown = false) : (socketInit u).roster =
    { u.roster with
      shut := Function.update u.roster.shut u.nsockets false
      nsockets := u.nsockets + 1
      head := Function.update u.roster.head (some u.nsockets) none } := by
  unfold socketInit
  rw [if_neg (Bool.eq_false_iff.mp ht)]
  unfold State.roster State.head
  congr 1
  · funext x
    by_cases hx : x = u.nsockets <;> simp [hx]
  · funext o
    cases o with
    | none => rfl
    | some x => by_cases hx : x = u.nsockets <;> simp [hx]

theorem setRelaying_roster (d : ℕ) {f : Stream → Stream} {c : Cirbuf}
    (hf : f (u.streams d) = { u.streams d with relaying := c }) : (u.setStream d f).roster =
      { u.roster with relaying := Function.update u.roster.relaying d c } := by
  unfold State.roster State.setStream
  congr 1 <;> funext x <;> by_cases hx : x = d <;> simp [hx, hf]

/-- A stream's table loses streams, or holds a stream that is there. -/
theorem Enlisted.setRelaying (h : Enlisted u e) (d : ℕ) {f : Stream → Stream} {c : Cirbuf}
    (hf : f (u.streams d) = { u.streams d with relaying := c })
    (hc : ∀ {v}, c.Stored v → (u.streams d).relaying.Stored v ∨ v < u.nstreams) :
    Enlisted (u.setStream d f) e := by
  obtain ⟨xs, h⟩ := h
  unfold Enlisted
  rw [setRelaying_roster d hf]
  refine ⟨xs, h.tables fun {d' v} hv => ?_⟩
  by_cases hd : d' = d
  · subst hd
    rw [Function.update_self] at hv
    exact hc hv
  · rw [Function.update_of_ne hd] at hv
    exact .inl hv

theorem check_push (a : Site) (p : Prop) [Decidable p] (f : Frame) :
    (u.push f).check a p = (u.check a p).push f := by
  unfold State.check
  split <;> rfl

theorem unlinkRelay_push (f : Frame) : unlinkRelay s (u.push f) = (unlinkRelay s u).push f := by
  have hs : ∀ v : State, (v.push f).streams = v.streams := fun _ => rfl
  unfold Registry.unlinkRelay
  rw [hs]
  cases (u.streams s).relayTo with
  | none => rfl
  | some d =>
    simp only [check_push, hs]
    rfl

theorem Enlisted.unlinkRelay (h : Enlisted u e) (s : ℕ) : Enlisted (unlinkRelay s u) e := by
  unfold Registry.unlinkRelay
  split
  · exact h
  · next d _ =>
    refine ((h.congr (check_roster ..)).congr (check_roster ..)).setRelaying d rfl fun hv => .inl ?_
    exact Cirbuf.remove_stored hv

/-! ### The machine -/

theorem Enlisted.closeEnd (h : Enlisted u e) (s : ℕ) : Enlisted (closeEnd s u) e := by
  have hfree : Enlisted (u.setStream s fun x => { x with relaying := x.relaying.destroy }) e := by
    refine h.setRelaying s rfl ?_
    rintro v ⟨i, hi⟩
    cases hi
  unfold Registry.closeEnd
  dsimp only
  split
  · split
    · exact hfree.socketClose _
    · exact hfree
  · exact hfree

theorem Enlisted.relaying (h : Enlisted u none) {s i : ℕ} {rest : List Frame}
    (hu : u.stack = .relaying s i :: rest) (queued : Bool) :
    Enlisted (Registry.resume queued (.relaying s i) { u with stack := rest }) none := by
  have hmem : Frame.relaying s i ∈ u.stack := by rw [hu]; exact List.mem_cons_self
  simp only [Registry.resume]
  split
  · have hturn : Enlisted (State.push (.relaying s (i + 1)) { u with stack := rest }) none :=
      h.replace hu (fun xs hl => hl.fits (.relaying s i) hmem) rfl rfl
    split
    · exact hturn
    · next c hc =>
      have hlt : c < u.nstreams := by
        obtain ⟨xs, hl⟩ := h
        exact hl.held (d := s) ⟨i, hc⟩
      unfold destroyRelaying
      refine Enlisted.streamDestroy ((hturn.congr (check_roster ..)).setStream c rfl) queued ?_
        (.inl rfl)
      unfold State.check
      split <;> exact hlt
  · exact (h.pop hu rfl).closeEnd s

/-- A walk over a list goes on. -/
theorem Enlisted.walkStreams (h : Enlisted u none) {o n : Option ℕ} {rest : List Frame}
    (hu : u.stack = .walkStreams o n :: rest) (queued : Bool) :
    Enlisted (Registry.resume queued (.walkStreams o n) { u with stack := rest }) none := by
  obtain ⟨xs, hl⟩ := h
  have hw : u.roster.Walk (xs o) o n := hl.fits (.walkStreams o n) (by
    show _ ∈ u.stack
    rw [hu]
    exact List.mem_cons_self)
  cases n with
  | none =>
    refine ⟨xs, hl.pop hu ?_⟩
    cases o with
    | none => exact .inr (Listed.walk_over hw)
    | some k => exact .inl (by simp [Frame.list])
  | some a =>
    have hlt : a < u.nstreams :=
      Enlisted.walk_lt ⟨xs, hl⟩ (o := o) (by rw [hu]; exact List.mem_cons_self)
    have hnext : Enlisted (State.push (.nextStream o a) { u with stack := rest }) (some a) :=
      ⟨xs, (hl.exempt a).replace hu ⟨hw, fun _ => .inr rfl⟩ rfl rfl⟩
    exact hnext.streamDestroy queued hlt (.inr rfl)

theorem Enlisted.resume (h : Enlisted u none) {f : Frame} {rest : List Frame}
    (hu : u.stack = f :: rest) (queued : Bool) :
    Enlisted (Registry.resume queued f { u with stack := rest }) none := by
  have hmem : f ∈ u.stack := by rw [hu]; exact List.mem_cons_self
  cases f with
  | user => exact h.pop hu rfl
  | clearing s =>
    have hnext : Enlisted (State.push (.relaying s 0) { u with stack := rest }) none :=
      h.replace hu (fun xs hl => hl.fits (.clearing s) hmem) rfl rfl
    have hunlink := hnext.unlinkRelay s
    rw [unlinkRelay_push] at hunlink
    exact hunlink
  | relaying s i => exact h.relaying hu queued
  | closingSocket k => exact (h.pop hu rfl).congr rfl
  | walkSockets k =>
    have ht := h.torn hmem rfl
    have hpop := h.pop hu rfl
    cases k with
    | none => exact hpop
    | some k =>
      simp only [Registry.resume]
      have hnext := hpop.push (f := .nextSocket k) rfl rfl (.inl ht)
      split
      · exact hnext.socketClose k
      · obtain ⟨xs, hl⟩ := hnext
        exact ⟨xs, hl.push (hl.walk (some k)) (.inl ht)⟩
  | nextSocket k => exact (h.pop hu rfl).push rfl rfl (.inl (h.torn hmem rfl))
  | walkStreams o n => exact h.walkStreams hu queued
  | nextStream o a => exact h.replace hu (fun xs hl => hl.walk_next (hl.fits _ hmem)) rfl rfl
  | walkFree => exact h.replace hu (fun xs hl => hl.walk none) rfl rfl

theorem Enlisted.runCall (h : Enlisted u none) {c : Call} (hc : c.valid u) :
    Enlisted (runCall c u) none := by
  cases c with
  | socketInit =>
    by_cases ht : u.teardown = true
    · simp only [Registry.runCall, socketInit]
      rw [if_pos ht]
      exact h
    · obtain ⟨xs, hl⟩ := h
      refine ⟨xs, ?_⟩
      simp only [Registry.runCall]
      rw [socketInit_roster (Bool.eq_false_iff.mpr ht)]
      exact hl.socket
  | streamInit id => exact h.streamInit id
  | connect s k =>
    simp only [Registry.runCall, streamConnect]
    split_ifs with hopen hconn
    · exact h
    · exact h
    · simp only [Bool.or_eq_true, not_or, Bool.not_eq_true] at hopen
      obtain ⟨⟨hd, hcl⟩, ht⟩ := hopen
      refine (h.setStream s (f := fun x => { x with connected := true }) rfl).setStreamSocket ht
        hc.1 ?_ hc.2.1 hc.2.2
      rw [State.setStream_self]
      exact hcl
  | changeRemote s k ok =>
    simp only [Registry.runCall, streamChangeRemote]
    split_ifs with hopen
    · exact h
    · exact h
    · simp only [Bool.or_eq_true, not_or, Bool.not_eq_true] at hopen
      obtain ⟨⟨hd, hcl⟩, ht⟩ := hopen
      exact h.setStreamSocket ht hc.1 hcl hc.2.1 hc.2.2
    · exact h
  | writeEnd s wanted =>
    simp only [Registry.runCall, streamWriteEnd]
    split
    · exact h.setStream s (f := fun x => { x with timewaitWanted := x.timewaitWanted || wanted }) rfl
    · exact h
  | relayTo s d =>
    simp only [Registry.runCall, streamRelayTo]
    split
    · exact h
    · have hnote : Enlisted (u.note (.relayTo s d (u.streams s) (u.streams d) u.localId)) none :=
        h.congr (note_roster rfl)
      have hset := hnote.setStream s (f := fun x => { x with relayed := true, relayTo := some d }) rfl
      refine hset.setRelaying d rfl fun hv => ?_
      rcases Cirbuf.set_stored hv with rfl | hv
      · exact .inr hc.1
      · exact .inl hv
  | destroy s queued => exact h.streamDestroy queued hc (.inl rfl)
  | teardown =>
    obtain ⟨xs, hl⟩ := h
    exact ⟨xs, hl.teardown _⟩

theorem Enlisted.step (h : Enlisted u none) (hs : Step u v) : Enlisted v none := by
  cases hs with
  | call c _ hc => exact h.runCall hc
  | returned hu => exact h.pop hu rfl
  | event e _ he =>
    cases e with
    | closeStream s err => exact h.closeStream err he.1 he.2 (.inl rfl)
    | destroySent s =>
      exact h.closeStreamInternal (f := fun x => { x with destroyQueued := false }) rfl he.1
        (h.queued_open he.1 he.2) (.inl rfl)
    | timewaitTimeout t => exact h.congr (timewaitTimeout_roster t)
    | socketClose k => exact h.socketClose k
  | resume queued hu => exact h.resume hu queued

end

theorem Reach.enlisted {u : State} (h : Reach u) : Enlisted u none := by
  induction h with
  | init =>
    refine ⟨fun _ => [], fun o => ?_, fun {o s} => ?_, nofun, ?_, nofun, nofun, nofun, nofun,
      List.nodup_nil, fun s => ?_⟩
    · cases o <;> exact .nil _
    · simp [State.roster]
    · rintro d v ⟨i, hi⟩
      cases hi
    · simp [State.roster]
  | step _ hs ih => exact ih.step hs

end Udx.Registry
