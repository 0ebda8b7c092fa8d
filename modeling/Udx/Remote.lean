/-
# Failed changes of the remote

`udx_stream_connect` and `udx_stream_change_remote` check their arguments in
between writing the stream. Which of their error exits leave the stream as it
was is decided here, exit by exit.

Key definitions: `Ret.isError`, `SockAddr.accepted`, `FailKeeps`.
Key theorems: `connect_fails_iff`, `changeRemote_fails_iff`, `failKeeps_iff`.
-/
import Udx.Paths

namespace Udx

open Serial

def Ret.isError : Ret → Bool
  | .ok _ => false
  | _ => true

/-- An address that both calls accept. -/
def SockAddr.accepted (a : SockAddr) : Bool := a.family != .unspec && a.port != 0

/-- The list the stream is on: that of its socket, or that of the `udx_t`
while it has none. `set_stream_socket` moves it whenever `stream->socket`
changes. -/
def Core.listedOn (c : Core) : Option Socket := c.peer.socket

/-- If the call `f` returns an error, what a later call reads is unchanged:
status, socket, remote, MTU state, timers and the list the stream is on. -/
def FailKeeps (f : Stream → Stream × Ret) (s : Stream) : Prop :=
  (f s).2.isError = true → (f s).1.st = s.st ∧ (f s).1.peer = s.peer ∧ (f s).1.mtu = s.mtu ∧
    (f s).1.tm = s.tm ∧ (f s).1.listedOn = s.listedOn

section

variable (env : Env) (cb : Hook) (socket : Socket) (id : SeqNo) (addr : SockAddr) (s : Stream)

/-- The address part succeeds for the addresses that are accepted. -/
theorem setRemoteAddr_ok (via : Option Socket) : (setRemoteAddr via addr s).2 = addr.accepted := by
  unfold setRemoteAddr SockAddr.accepted
  dsimp only
  split_ifs with hfam hport hmap <;> simp_all

theorem connectBind_ok : (connectBind env socket id addr s).2 = addr.accepted := by
  have hok := setRemoteAddr_ok addr
    ((s.withSt fun st => { st with connected := true }).withPeer fun peer =>
      { peer with remoteId := id, socket := some socket }) (some socket)
  unfold connectBind
  dsimp only
  rw [← hok]
  split
  · next h => exact h.symm
  · next h => exact (Bool.eq_false_iff.mpr h).symm

/-- The stream is one that `udx_stream_connect` goes on to change. -/
def Stream.connectable (s : Stream) : Bool := !(s.st.dead || s.io.teardown) && !s.st.connected

/-- The stream is one whose remote `udx_stream_change_remote` goes on to
change. -/
def Stream.changeable (s : Stream) : Bool := !(s.st.dead || s.io.teardown) && s.st.connected

theorem connect_fails_iff : (udxStreamConnect env cb socket id addr s).2.isError = true ↔
    s.connectable = false ∨ addr.accepted = false := by
  have hok := connectBind_ok env socket id addr s
  unfold udxStreamConnect Stream.connectable
  split_ifs with hdead hconn
  · simp [Ret.isError, hdead]
  · simp [Ret.isError, hconn]
  · dsimp only
    rw [hok]
    cases haccept : addr.accepted
    · simp [Ret.isError]
    · simp only [Bool.not_true, Bool.false_eq_true, if_false]
      split_ifs <;> simp_all [Ret.isError]

theorem changeRemote_fails_iff (changed : Bool) :
    (udxStreamChangeRemote socket id addr changed s).2.isError = true ↔
      s.changeable = false ∨ addr.accepted = false := by
  have hok := setRemoteAddr_ok addr s s.peer.socket
  have hchange : ∀ x : Stream, (changeRemote socket id changed x).2.isError = false := by
    intro x
    unfold changeRemote
    dsimp only
    split <;> rfl
  unfold udxStreamChangeRemote Stream.changeable
  split_ifs with hdead hconn
  · simp [Ret.isError, hdead]
  · simp only [Bool.not_eq_true'] at hconn
    simp [Ret.isError, hconn]
  · dsimp only
    rw [hok]
    cases haccept : addr.accepted
    · simp [Ret.isError]
    · simp only [Bool.not_true, Bool.false_eq_true, if_false, hchange]
      simp_all

/-- A call that is refused before it writes anything leaves the whole stream
as it was. -/
theorem connect_refused (h : s.connectable = false) : (udxStreamConnect env cb socket id addr s).1 = s := by
  unfold udxStreamConnect
  unfold Stream.connectable at h
  split_ifs with hdead hconn
  · rfl
  · rfl
  · simp_all

theorem changeRemote_refused (changed : Bool) (h : s.changeable = false) :
    (udxStreamChangeRemote socket id addr changed s).1 = s := by
  unfold udxStreamChangeRemote
  unfold Stream.changeable at h
  split_ifs with hdead hconn
  · rfl
  · rfl
  · simp_all

/-- A refused address leaves the stream connected, to a socket it cannot use. -/
theorem connect_marks (h : s.connectable = true) (haddr : addr.accepted = false) :
    (udxStreamConnect env cb socket id addr s).1.st.connected = true := by
  have hok := connectBind_ok env socket id addr s
  have hst : (connectBind env socket id addr s).1.st = { s.st with connected := true } := by
    have hcore := setRemoteAddr_core (some socket) addr
      ((s.withSt fun st => { st with connected := true }).withPeer fun peer =>
        { peer with remoteId := id, socket := some socket })
    unfold connectBind
    dsimp only
    rw [hcore]
    split <;> rfl
  unfold Stream.connectable at h
  simp only [Bool.and_eq_true, Bool.not_eq_true'] at h
  unfold udxStreamConnect
  rw [if_neg (by simp [h.1]), if_neg (by simp [h.2])]
  dsimp only
  rw [hok, haddr]
  simp only [Bool.not_false, if_true]
  rw [hst]

/-- What `udx_stream_change_remote` does with an address it refuses: the
length is set before the port is looked at. -/
theorem changeRemote_peer (changed : Bool) (h : s.changeable = true) (haddr : addr.accepted = false) :
    (udxStreamChangeRemote socket id addr changed s).1 =
      if addr.family = .unspec then s
      else s.withPeer fun peer => { peer with remoteAddrLen := sockaddrLen addr } := by
  have hok := setRemoteAddr_ok addr s s.peer.socket
  unfold Stream.changeable at h
  simp only [Bool.and_eq_true, Bool.not_eq_true'] at h
  unfold udxStreamChangeRemote
  rw [if_neg (by simp [h.1]), if_neg (by simp [h.2])]
  dsimp only
  rw [hok, haddr]
  simp only [Bool.not_false, if_true]
  unfold setRemoteAddr
  unfold SockAddr.accepted at haddr
  dsimp only
  split_ifs with hfam hport <;> simp_all

/-- Where the two calls keep the stream when they fail: `udx_stream_connect`
unless it comes to the address and refuses it, `udx_stream_change_remote`
unless it refuses a port 0 in an address of another length. -/
theorem failKeeps_iff (changed : Bool) :
    (FailKeeps (udxStreamConnect env cb socket id addr) s ↔
      ¬ (s.connectable = true ∧ addr.accepted = false)) ∧
    (FailKeeps (udxStreamChangeRemote socket id addr changed) s ↔
      ¬ (s.changeable = true ∧ addr.family ≠ .unspec ∧ addr.port = 0 ∧
        s.peer.remoteAddrLen ≠ sockaddrLen addr)) := by
  constructor
  · constructor
    · rintro hkeep ⟨hs, haddr⟩
      have hst := (hkeep ((connect_fails_iff env cb socket id addr s).mpr (.inr haddr))).1
      have hmark := connect_marks env cb socket id addr s hs haddr
      unfold Stream.connectable at hs
      rw [hst] at hmark
      simp [hmark] at hs
    · intro hcond hfail
      have hrefused : s.connectable = false := by
        rcases (connect_fails_iff env cb socket id addr s).mp hfail with h | h
        · exact h
        · exact Bool.eq_false_iff.mpr fun hs => hcond ⟨hs, h⟩
      rw [connect_refused env cb socket id addr s hrefused]
      exact ⟨rfl, rfl, rfl, rfl, rfl⟩
  · constructor
    · rintro hkeep ⟨hs, hfam, hport, hlen⟩
      have haddr : addr.accepted = false := by simp [SockAddr.accepted, hport]
      have hpeer := (hkeep ((changeRemote_fails_iff socket id addr s changed).mpr (.inr haddr))).2.1
      rw [changeRemote_peer socket id addr s changed hs haddr, if_neg hfam] at hpeer
      exact hlen (congrArg Peer.remoteAddrLen hpeer).symm
    · intro hcond hfail
      by_cases hs : s.changeable = true
      · have haddr : addr.accepted = false := by
          rcases (changeRemote_fails_iff socket id addr s changed).mp hfail with h | h
          · exact absurd hs (Bool.eq_false_iff.mp h)
          · exact h
        have heq := changeRemote_peer socket id addr s changed hs haddr
        rw [heq]
        split
        · exact ⟨rfl, rfl, rfl, rfl, rfl⟩
        · next hfam =>
          have hport : addr.port = 0 := by simpa [SockAddr.accepted, hfam] using haddr
          have hlen : sockaddrLen addr = s.peer.remoteAddrLen := by
            by_contra hne
            exact hcond ⟨hs, hfam, hport, fun h => hne h.symm⟩
          have hpeer : { s.peer with remoteAddrLen := sockaddrLen addr } = s.peer := by rw [hlen]
          exact ⟨rfl, hpeer, rfl, rfl, congrArg Peer.socket hpeer⟩
      · rw [changeRemote_refused socket id addr s changed (Bool.eq_false_iff.mpr hs)]
        exact ⟨rfl, rfl, rfl, rfl, rfl⟩

end

/-- A connect to port 0 fails, and leaves a fresh stream connected. -/
theorem failKeeps_port_zero : ¬ FailKeeps
    (udxStreamConnect .free Hook.quiet ⟨0, .inet⟩ 2 ⟨.inet, 0, [1, 2, 3, 4]⟩)
    (init .free { localId := 1, seq := 0, ack := 0, now := 0 }) := by
  intro h
  have hst := (h (by decide +kernel)).1
  have hconn := congrArg Status.connected hst
  revert hconn
  decide +kernel

end Udx
