/-
# Address families

`udx_stream_connect` maps an IPv4 remote for an IPv6 socket by the family of
that socket, `udx_stream_change_remote` by the family of the socket the stream
had before, and packets that have an address keep it when they are sent again.
So a datagram fits the socket just if it is one of these packets, and was bound
to an address of the family, or goes to a remote that was mapped for it.

Key definitions: `Socket.reaches`, `Given`, `Entry.given`, `Families`, `Fitted`.
Key theorem: `Reach.families_iff`.
-/
import Udx.Destinations

namespace Udx

open Serial

/-- A remote that can be reached from the socket. -/
def Socket.reaches (k : Socket) (a : SockAddr) : Prop :=
  k.family = .inet6 ∨ k.family = .inet ∧ a.family = .inet

instance (k : Socket) (a : SockAddr) : Decidable (k.reaches a) :=
  inferInstanceAs (Decidable (_ ∨ _))

/-- Packet `k` has an address. -/
def Tx.Bound (t : Tx) (k : ℕ) : Prop := k < t.pkt ∨ k = t.pkt ∧ (t.pkts k).remoteAddrLen ≠ 0

instance (t : Tx) (k : ℕ) : Decidable (t.Bound k) := inferInstanceAs (Decidable (_ ∨ _))

/-- What a call that sets the remote gives the stream, the socket whose family
decides how the address is mapped, and the packets the call finds. -/
structure Given where
  socket : Socket
  addr : SockAddr
  via : Option Socket
  found : Tx

/-- What a call gives which sets the socket: a connect sets it for an address
it refuses, too. -/
def Entry.given : Entry → Option (Option Given)
  | .call (.connect socket id addr) pre =>
    if (Entry.call (.connect socket id addr) pre).sets then
      some (if addr.accepted then some ⟨socket, addr, some socket, pre.tx⟩ else none)
    else none
  | .call (.changeRemote socket id addr cb) pre =>
    if (Entry.call (.changeRemote socket id addr cb) pre).sets && addr.accepted then
      some (some ⟨socket, addr, pre.peer.socket, pre.tx⟩)
    else none
  | _ => none

/-- A datagram meets `P` if something was given and can be reached. -/
def Entry.Meets (P : Given → Kind → Dest → Prop) (given : Option (Option Given)) : Entry → Prop
  | .handed kind dest => match given with
    | some (some g) => kind ≠ .timewait → g.socket.reaches g.addr → P g kind dest
    | _ => True
  | _ => True

/-- Every datagram of a log meets `P` with what was given last before it. -/
def Since (P : Given → Kind → Dest → Prop) : List Entry → Prop
  | [] => True
  | e :: older => e.Meets P (older.findSome? Entry.given) ∧ Since P older

/-- The datagram goes to the socket that was given, and to an address of its
family. -/
def Given.Agrees (g : Given) (_ : Kind) (dest : Dest) : Prop :=
  dest.socket = some g.socket ∧ dest.addr.family = g.socket.family

/-- The address is mapped for the socket: it is an IPv6 address, or the socket
that decides is an IPv6 socket just if the one that was given is. -/
def Given.Mapped (g : Given) : Prop :=
  g.addr.family = .inet6 ∨ (g.via.any (·.family == .inet6)) = (g.socket.family == .inet6)

/-- A packet that the call found bound was bound to an address of the family;
for any other datagram the address that was given is mapped. -/
def Given.Fits (g : Given) (kind : Kind) (_ : Dest) : Prop :=
  match kind with
  | .packet k => if g.found.Bound k then (g.found.pkts k).remoteAddr.family = g.socket.family else g.Mapped
  | _ => g.Mapped

/-- Every datagram goes to an address of the family of the stream's socket. -/
def Families (log : List Entry) : Prop := Since Given.Agrees log

/-- Every packet that is sent again after a change was bound to an address of
the family, and where anything else is sent the remote is mapped. -/
def Fitted (log : List Entry) : Prop := Since Given.Fits log

section

variable (P : Given → Kind → Dest → Prop) [∀ g kind dest, Decidable (P g kind dest)]

instance (given : Option (Option Given)) (e : Entry) : Decidable (e.Meets P given) :=
  match e, given with
  | .handed _ _, some (some _) => inferInstanceAs (Decidable (_ → _ → _))
  | .handed _ _, some none => isTrue trivial
  | .handed _ _, none => isTrue trivial
  | .callback _, _ | .returned _ _, _ | .call _ _, _ | .event _ _, _ | .reached _ _, _ | .result _, _
  | .wire _ _ _, _ | .failed _, _ | .refill _ _, _ | .accept _ _ _, _ | .dropped, _ | .dead, _ =>
    isTrue trivial

instance instDecidableSince : (log : List Entry) → Decidable (Since P log)
  | [] => isTrue trivial
  | e :: older =>
    have := instDecidableSince older
    inferInstanceAs (Decidable (e.Meets P _ ∧ Since P older))

end

instance (g : Given) (kind : Kind) (dest : Dest) : Decidable (g.Agrees kind dest) :=
  inferInstanceAs (Decidable (_ ∧ _))

instance (g : Given) : Decidable g.Mapped := inferInstanceAs (Decidable (_ ∨ _))

instance (g : Given) (kind : Kind) (dest : Dest) : Decidable (g.Fits kind dest) :=
  match kind with
  | .packet k => inferInstanceAs (Decidable
      (if g.found.Bound k then (g.found.pkts k).remoteAddr.family = g.socket.family else g.Mapped))
  | .ack | .probe | .destroy | .timewait | .message _ => inferInstanceAs (Decidable g.Mapped)

instance (log : List Entry) : Decidable (Families log) := inferInstanceAs (Decidable (Since Given.Agrees log))

instance (log : List Entry) : Decidable (Fitted log) := inferInstanceAs (Decidable (Since Given.Fits log))

/-! ### Where a datagram goes -/

/-- The address a datagram goes to that is sent after the call. -/
def Given.addrOf (g : Given) (kind : Kind) : SockAddr :=
  match kind with
  | .packet k => if g.found.Bound k then (g.found.pkts k).remoteAddr else g.addr.via g.via
  | _ => g.addr.via g.via

theorem Given.mapped_iff {g : Given} (hreach : g.socket.reaches g.addr) (haddr : g.addr.accepted = true) :
    (g.addr.via g.via).family = g.socket.family ↔ g.Mapped := by
  have hfam : g.addr.family ≠ .unspec := by
    intro hunspec
    simp [SockAddr.accepted, hunspec] at haddr
  unfold SockAddr.via Given.Mapped addrToV6
  rcases hreach with h | ⟨h, hinet⟩
  · cases hf : g.addr.family <;> cases hv : g.via.any (·.family == .inet6) <;> simp_all
  · cases hv : g.via.any (·.family == .inet6) <;> simp_all

theorem Given.fits_iff {g : Given} (hreach : g.socket.reaches g.addr) (haddr : g.addr.accepted = true)
    (kind : Kind) (dest : Dest) : (g.addrOf kind).family = g.socket.family ↔ g.Fits kind dest := by
  cases kind with
  | packet k =>
    unfold Given.addrOf Given.Fits
    dsimp only
    split
    · exact Iff.rfl
    · exact g.mapped_iff hreach haddr
  | _ => exact g.mapped_iff hreach haddr

/-- The socket and the remote of the stream are those that were given; the
packets that were bound keep their address, and those that are bound later have
the address of the remote. -/
structure Tracked (g : Given) (s : Stream) : Prop where
  accepted : g.addr.accepted = true
  socket : s.peer.socket = some g.socket
  remote : s.peer.remoteAddr = g.addr.via g.via
  kept : ∀ k, g.found.Bound k → s.tx.Bound k ∧ (s.tx.pkts k).remoteAddr = (g.found.pkts k).remoteAddr
  fresh : ∀ k, s.tx.Bound k → ¬ g.found.Bound k → (s.tx.pkts k).remoteAddr = s.peer.remoteAddr

/-- A packet without a payload has no address. -/
def Tx.Unbound (t : Tx) : Prop := t.started = false → (t.pkts t.pkt).remoteAddrLen = 0

/-- A step binds packets that have no address, and to the remote. -/
theorem Loads.bound {s t : Stream} (h : Loads s t) (hs : s.tx.Unbound) : t.tx.Unbound ∧
    (∀ k, s.tx.Bound k → t.tx.Bound k ∧ (t.tx.pkts k).remoteAddr = (s.tx.pkts k).remoteAddr) ∧
    ∀ k, t.tx.Bound k → ¬ s.tx.Bound k → (t.tx.pkts k).remoteAddr = s.peer.remoteAddr := by
  have hsame : ∀ {p q : Packet}, p.remote = q.remote →
      p.remoteAddr = q.remoteAddr ∧ p.remoteAddrLen = q.remoteAddrLen := fun hp =>
    ⟨(congrArg (fun r => r.2.1) hp :), (congrArg (fun r => r.2.2) hp :)⟩
  rcases h.remotes with ⟨hpkt, hstarted, hpkts⟩ | ⟨-, hpkt, hfresh, hsent, hother⟩
  · refine ⟨fun hidle => ?_, fun k hk => ?_, fun k hk hnot => ?_⟩
    · have hold : s.tx.started = false := Bool.eq_false_iff.mpr fun hon => by simp [hstarted hon] at hidle
      rcases hpkts t.tx.pkt with heq | ⟨-, -, -, hon⟩
      · rw [(hsame heq).2, hpkt]
        exact hs hold
      · rw [hon] at hidle
        cases hidle
    · rcases hpkts k with heq | ⟨rfl, -, hold, -⟩
      · refine ⟨?_, (hsame heq).1⟩
        unfold Tx.Bound at hk ⊢
        rwa [hpkt, (hsame heq).2]
      · -- the packet in construction has no address
        rcases hk with hlt | ⟨-, hlen⟩
        · exact absurd hlt (Nat.lt_irrefl _)
        · exact absurd (hs hold) hlen
    · rcases hpkts k with heq | ⟨-, heq, -⟩
      · refine absurd ?_ hnot
        unfold Tx.Bound at hk ⊢
        rwa [hpkt, (hsame heq).2] at hk
      · exact (congrArg (fun r => r.2.1) heq :)
  · refine ⟨fun _ => ?_, fun k hk => ?_, fun k hk hnot => ?_⟩
    · rw [hpkt]
      exact hfresh
    · rcases hk with hlt | ⟨rfl, hlen⟩
      · exact ⟨.inl (by omega), (hsame (hother k (by omega) (by omega))).1⟩
      · refine ⟨.inl (by omega), (congrArg (fun r => r.2.1) hsent : _).trans ?_⟩
        unfold Core.nextRemote
        rw [if_neg hlen]
        rfl
    · have hle : k = s.tx.pkt := by
        rcases hk with hlt | ⟨rfl, hlen⟩
        · have hge : ¬ k < s.tx.pkt := fun hlt' => hnot (.inl hlt')
          omega
        · rw [hpkt] at hlen
          exact absurd hfresh hlen
      subst hle
      have hlen : (s.tx.pkts s.tx.pkt).remoteAddrLen = 0 := not_not.mp fun hlen => hnot (.inr ⟨rfl, hlen⟩)
      refine (congrArg (fun r => r.2.1) hsent : _).trans ?_
      unfold Core.nextRemote
      rw [if_pos hlen]
      rfl

namespace Tracked

variable {g : Given} {s t : Stream}

/-- Where the packet in construction goes if it is sent now. -/
theorem nextRemote (h : Tracked g s) : s.toCore.nextRemote.2.1 = g.addrOf (.packet s.tx.pkt) := by
  unfold Core.nextRemote Given.addrOf
  dsimp only
  split
  · next hlen =>
    have hnot : ¬ g.found.Bound s.tx.pkt := by
      intro hfound
      rcases (h.kept _ hfound).1 with hlt | ⟨-, hne⟩
      · exact absurd hlt (Nat.lt_irrefl _)
      · exact hne hlen
    rw [if_neg hnot]
    exact h.remote
  · next hlen =>
    have hbound : s.tx.Bound s.tx.pkt := .inr ⟨rfl, hlen⟩
    split
    · next hfound => exact (h.kept _ hfound).2
    · next hfound => exact (h.fresh _ hbound hfound).trans h.remote

/-- A packet that is out. -/
theorem packet (h : Tracked g s) {k : ℕ} (hk : s.tx.Bound k) :
    (s.tx.pkts k).remoteAddr = g.addrOf (.packet k) := by
  unfold Given.addrOf
  dsimp only
  split
  · next hfound => exact (h.kept _ hfound).2
  · next hfound => exact (h.fresh _ hk hfound).trans h.remote

/-- A datagram that is sent now. -/
theorem dest (h : Tracked g s) (hq : Queued s.io.now s.tx.pkt s.tx) {kind : Kind} {dest : Dest}
    (he : (Entry.handed kind dest).tells s) (hkind : kind ≠ .timewait) :
    dest = ⟨some g.socket, g.addrOf kind⟩ := by
  have hown : dest = s.peer.dest → dest = ⟨some g.socket, g.addr.via g.via⟩ := by
    rintro rfl
    unfold Peer.dest
    rw [h.socket, h.remote]
  cases kind with
  | packet k =>
    rcases he with ⟨rfl, rfl⟩ | ⟨hk, rfl⟩
    · rw [h.socket, h.nextRemote]
    · rw [h.socket, h.packet (.inl (hq.unacked_lt hk))]
  | timewait => exact absurd rfl hkind
  | _ => exact hown he

/-- It agrees with the socket just if it fits. -/
theorem begun_iff (h : Tracked g s) (hq : Queued s.io.now s.tx.pkt s.tx) {kind : Kind} {dest : Dest}
    (he : (Entry.handed kind dest).tells s) (hkind : kind ≠ .timewait) (hreach : g.socket.reaches g.addr) :
    g.Agrees kind dest ↔ g.Fits kind dest := by
  rw [← g.fits_iff hreach h.accepted kind dest]
  unfold Given.Agrees
  rw [h.dest hq he hkind]
  exact ⟨fun ha => ha.2, fun hfam => ⟨rfl, hfam⟩⟩

/-- Packets that are kept, and those that are bound now. -/
theorem step (h : Tracked g s) (hs : s.tx.Unbound) (hl : Loads s t) (hsock : t.peer.socket = s.peer.socket)
    (haddr : t.peer.remoteAddr = s.peer.remoteAddr) : Tracked g t := by
  obtain ⟨-, hkept, hfresh⟩ := hl.bound hs
  refine ⟨h.accepted, hsock.trans h.socket, haddr.trans h.remote, fun k hk => ?_, fun k hk hnot => ?_⟩
  · obtain ⟨hbound, heq⟩ := h.kept k hk
    obtain ⟨hbound', heq'⟩ := hkept k hbound
    exact ⟨hbound', heq'.trans heq⟩
  · rw [haddr]
    by_cases hbound : s.tx.Bound k
    · exact (hkept k hbound).2.trans (h.fresh k hbound hnot)
    · exact hfresh k hk hbound

end Tracked

/-! ### Steps that set nothing -/

/-- New entries that give nothing. -/
theorem since_append {P : Given → Kind → Dest → Prop} {l log : List Entry} (h : Since P log)
    (hl : ∀ e ∈ l, e.given = none ∧ e.Meets P (log.findSome? Entry.given)) :
    Since P (l ++ log) ∧ (l ++ log).findSome? Entry.given = log.findSome? Entry.given := by
  induction l with
  | nil => exact ⟨h, rfl⟩
  | cons e l ih =>
    obtain ⟨hsince, hgiven⟩ := ih fun x hx => hl x (List.mem_cons_of_mem _ hx)
    obtain ⟨he, hmeets⟩ := hl e List.mem_cons_self
    refine ⟨⟨?_, hsince⟩, ?_⟩
    · show e.Meets P ((l ++ log).findSome? Entry.given)
      rw [hgiven]
      exact hmeets
    · show (e :: (l ++ log)).findSome? Entry.given = _
      rw [List.findSome?_cons, he, hgiven]

/-- Where every datagram meets `P` just if it meets `Q`, all do or do not. -/
theorem since_iff {P Q : Given → Kind → Dest → Prop} {log : List Entry}
    (h : Since (fun g kind dest => P g kind dest ↔ Q g kind dest) log) : Since P log ↔ Since Q log := by
  induction log with
  | nil => exact Iff.rfl
  | cons e older ih =>
    obtain ⟨he, hsince⟩ := h
    refine and_congr ?_ (ih hsince)
    cases e with
    | handed kind dest =>
      revert he
      show (match older.findSome? Entry.given with | some (some g) => _ | _ => _) → _
      unfold Entry.Meets
      rcases older.findSome? Entry.given with _ | _ | g
      · exact fun _ => Iff.rfl
      · exact fun _ => Iff.rfl
      · exact fun he => forall_congr' fun hkind => forall_congr' fun hreach => he hkind hreach
    | _ => exact Iff.rfl

theorem Entry.given_of_tells {e : Entry} {s : Stream} (h : e.tells s) : e.given = none := by
  cases e with
  | call c pre =>
    cases c with
    | connect socket id addr => exact if_neg (by rw [h.2]; simp)
    | changeRemote socket id addr cb => exact if_neg (by rw [h.2]; simp)
    | _ => rfl
  | _ => rfl

/-! ### Every run -/

/-- What was given last is tracked, and every datagram so far agrees with what
was given before it just if it fits. -/
structure Tracking (s : Stream) : Prop where
  log : Since (fun g kind dest => g.Agrees kind dest ↔ g.Fits kind dest) s.log
  tracked : ∀ g, s.log.findSome? Entry.given = some (some g) → Tracked g s

/-- A call that sets the remote. -/
theorem Sets.tracking {env : Env} {s t : Stream} (h : Sets env s t) (hs : Tracking s) :
    Tracking t ∧ t.tx = s.tx := by
  have hself : ∀ {x : SockAddr}, ∀ k, s.tx.Bound k → ¬ s.tx.Bound k → (s.tx.pkts k).remoteAddr = x :=
    fun k hk hnot => absurd hk hnot
  cases h with
  | changePath socket id addr cb _ hset =>
    obtain ⟨hcore, hlog, -⟩ :=
      changePath_spec socket id addr cb (s.note (.call (.changeRemote socket id addr cb) s.toCore))
    obtain ⟨len, hpeer⟩ :=
      changePath_peer socket id addr cb (s.note (.call (.changeRemote socket id addr cb) s.toCore))
    generalize Udx.changePath socket id addr cb _ = t at hcore hlog hpeer
    have htx : t.tx = s.tx := (congrArg Core.tx hcore :)
    refine ⟨⟨hlog ▸ ⟨trivial, hs.log⟩, fun g hgiven => ?_⟩, htx⟩
    rw [hlog] at hgiven
    by_cases haddr : addr.accepted = true
    · have hnew : (Entry.call (.changeRemote socket id addr cb) s.toCore).given =
          some (some ⟨socket, addr, s.peer.socket, s.tx⟩) := if_pos (by rw [hset, haddr]; rfl)
      rw [Stream.note, List.findSome?_cons, hnew] at hgiven
      cases hgiven
      have hnow : t.peer.socket = some socket ∧ t.peer.remoteAddr = addr.via s.peer.socket := by
        rw [if_pos haddr] at hpeer
        split at hpeer <;> exact hpeer ▸ ⟨rfl, rfl⟩
      refine ⟨haddr, hnow.1, hnow.2, ?_, htx ▸ hself⟩
      rw [htx]
      exact fun k hk => ⟨hk, rfl⟩
    · have hnone : (Entry.call (.changeRemote socket id addr cb) s.toCore).given = none :=
        if_neg (by rw [hset, Bool.eq_false_iff.mpr haddr]; simp)
      rw [Stream.note, List.findSome?_cons, hnone] at hgiven
      have hold := hs.tracked g hgiven
      rw [if_neg haddr] at hpeer
      refine ⟨hold.accepted, hpeer ▸ hold.socket, hpeer ▸ hold.remote, htx ▸ hold.kept, ?_⟩
      rw [htx, hpeer]
      exact hold.fresh
  | bind socket id addr _ hset =>
    obtain ⟨⟨len, hpeer⟩, hlog⟩ :=
      connectBind_peer env socket id addr (s.note (.call (.connect socket id addr) s.toCore))
    obtain ⟨htx, -⟩ :=
      connectBind_found env socket id addr (s.note (.call (.connect socket id addr) s.toCore))
    generalize (connectBind env socket id addr _).1 = t at hpeer hlog htx
    refine ⟨⟨hlog ▸ ⟨trivial, hs.log⟩, fun g hgiven => ?_⟩, htx⟩
    have hnew : (Entry.call (.connect socket id addr) s.toCore).given =
        some (if addr.accepted then some ⟨socket, addr, some socket, s.tx⟩ else none) := if_pos hset
    rw [hlog, Stream.note, List.findSome?_cons, hnew] at hgiven
    by_cases haddr : addr.accepted = true
    · rw [if_pos haddr] at hgiven hpeer
      cases hgiven
      refine ⟨haddr, hpeer ▸ rfl, hpeer ▸ rfl, ?_, htx ▸ hself⟩
      rw [htx]
      exact fun k hk => ⟨hk, rfl⟩
    · rw [if_neg haddr] at hgiven
      cases hgiven

/-- Any other step. -/
theorem Logs.tracking {env : Env} {s t : Stream} (h : Logs s t) (ha : Atom env s t) (hkeep : ¬ Sets env s t)
    (hq : Queued s.io.now s.tx.pkt s.tx) (hidle : s.tx.Unbound) (hs : Tracking s) : Tracking t := by
  obtain ⟨l, hlog, htells⟩ := h.log
  have hpath : t.peer.socket = s.peer.socket ∧ t.peer.remoteAddr = s.peer.remoteAddr := by
    by_cases hdone : PathDone s t
    · rw [hdone.peer]
      exact ⟨rfl, rfl⟩
    · have hpeer := ha.peer env hkeep hdone
      exact ⟨(congrArg Peer.socket hpeer :), (congrArg Peer.remoteAddr hpeer :)⟩
  have hmeets : ∀ e ∈ l, e.Meets (fun g kind dest => g.Agrees kind dest ↔ g.Fits kind dest)
      (s.log.findSome? Entry.given) := by
    intro e he
    cases e with
    | handed kind dest =>
      rcases hgiven : s.log.findSome? Entry.given with _ | _ | g
      · trivial
      · trivial
      · exact fun hkind hreach => (hs.tracked g hgiven).begun_iff hq (htells _ he) hkind hreach
    | _ => trivial
  obtain ⟨hsince, hgiven⟩ := since_append hs.log fun e he => ⟨Entry.given_of_tells (htells e he), hmeets e he⟩
  rw [← hlog] at hsince hgiven
  exact ⟨hsince, fun g hlast =>
    (hs.tracked g (hgiven ▸ hlast)).step hidle (ha.loads env) hpath.1 hpath.2⟩

/-- In every run every datagram goes to an address of the family of the
stream's socket just if the packets that are sent again after a change were
bound to one, and the remote that the others go to is mapped for the socket. -/
theorem Reach.families_iff {env : Env} {cfg : Config} {s : Stream} (h : Reach env cfg s) :
    Families s.log ↔ Fitted s.log := by
  have hall := h.atoms (I := fun s => Queued s.io.now s.tx.pkt s.tx ∧ s.tx.Unbound ∧ Tracking s)
    ⟨(Reach.init : Reach env cfg _).queued, fun _ => rfl, trivial, nofun⟩ fun {s t} ha ⟨hq, hidle, hs⟩ => by
      refine ⟨ha.flights.queued hq, ?_⟩
      by_cases hset : Sets env s t
      · obtain ⟨htrack, htx⟩ := hset.tracking hs
        exact ⟨htx ▸ hidle, htrack⟩
      · exact ⟨((ha.loads env).bound hidle).1, (ha.logs env hset).tracking ha hset hq hidle hs⟩
  exact since_iff hall.2.2.log

/-! ### Runs that change the remote -/

def familyConfig : Config := { localId := 1, seq := 0, ack := 0, now := 0 }

/-- What was handed to a socket. -/
def Entry.handedTo : Entry → Option (Kind × Dest)
  | .handed kind dest => some (kind, dest)
  | _ => none

/-- A byte goes out over an IPv4 socket, and again after the stream has moved
to another socket; after its ack the stream moves to an IPv6 socket. -/
def movedStream (socket : Socket) (addr remote : SockAddr) : Stream :=
  let ack := Header.encode { type := 0, dataOffset := 0, remoteId := 1, rwnd := 65535, seq := 0, ack := 1 }
  runEvents .free
    [.call (.connect ⟨0, .inet⟩ 2 ⟨.inet, 1, [1, 2, 3, 4]⟩), .call (.write [[7]] false), .prepare,
      .call (.changeRemote socket 2 addr false), .tick 1000, .timer, .tick 1000, .timer, .recv ack true,
      .call (.changeRemote ⟨2, .inet6⟩ 2 remote false), .call (.write [[8]] false), .prepare]
    (init .free familyConfig)

/-- Both times the addresses fit. -/
def fittedStream : Stream := movedStream ⟨1, .inet⟩ ⟨.inet, 2, [1, 2, 3, 5]⟩ ⟨.inet6, 2, List.replicate 16 1⟩

theorem Reach.families_moved : fittedStream.log.filterMap Entry.handedTo =
      [(.packet 1, ⟨some ⟨2, .inet6⟩, ⟨.inet6, 2, List.replicate 16 1⟩⟩),
        (.packet 0, ⟨some ⟨1, .inet⟩, ⟨.inet, 1, [1, 2, 3, 4]⟩⟩),
        (.packet 0, ⟨some ⟨0, .inet⟩, ⟨.inet, 1, [1, 2, 3, 4]⟩⟩)] ∧ Families fittedStream.log := by
  have h : Reach .free familyConfig fittedStream := .runEvents .init _
  have hiff : Families fittedStream.log ↔ Fitted fittedStream.log := h.families_iff
  refine ⟨by decide +kernel, ?_⟩
  rw [hiff]
  decide +kernel

/-- An IPv4 remote for the IPv6 socket. -/
def unmappedStream : Stream := movedStream ⟨1, .inet⟩ ⟨.inet, 2, [1, 2, 3, 5]⟩ ⟨.inet, 2, [1, 2, 3, 6]⟩

/-- The byte is sent again over an IPv6 socket. -/
def resentStream : Stream :=
  movedStream ⟨1, .inet6⟩ ⟨.inet6, 2, List.replicate 16 1⟩ ⟨.inet6, 2, List.replicate 16 2⟩

/-- The change to an IPv6 socket does not map an IPv4 remote, and a packet that
was bound to an IPv4 address is sent to it again over an IPv6 socket. -/
theorem Reach.families_unmapped : (Reach .free familyConfig unmappedStream ∧ ¬ Families unmappedStream.log) ∧
    Reach .free familyConfig resentStream ∧ ¬ Families resentStream.log := by
  have hunmapped : Reach .free familyConfig unmappedStream := .runEvents .init _
  have hresent : Reach .free familyConfig resentStream := .runEvents .init _
  exact ⟨⟨hunmapped, by decide +kernel⟩, hresent, by decide +kernel⟩

end Udx
