/-
# Sending on a socket

`udx_socket_send_ttl`, `udx_stream_send`, `retry_send_specific_ttl` and
`udx_socket_close`, as far as the requests of one socket go. A user callback
is the last thing each of them does for a request, so a callback that sends,
sets the TTL or closes is a further step before the loop it interrupts goes
on. What `uv_udp_try_send` and `uv_udp_send` answer comes with the step.

A request for an IPv4 address on an IPv6 socket is saved as it was given and
sent mapped, so its retries go to another address than its first try.
`uv_udp_send` may refuse a request that the call then reports as taken, and a
request that joins the queue of a closed socket stays there.

Key definitions: `udxSocketSendTtl`, `step`, `Reach`, `Agrees`, `Completed`.
Key theorems: `step_restored`, `Reach.agrees_iff`, `step_served`, `Reach.completed`.
-/
import Udx.Api
import Mathlib.Data.List.Perm.Basic

namespace Udx
namespace Sockets

def UDX_DEFAULT_TTL : ℕ := 64

/-! ### Requests -/

/-- The arguments of `udx_socket_send_ttl`. -/
structure SendArgs where
  buf : List UInt8
  dest : SockAddr
  ttl : ℤ
  onSend : Bool
  deriving DecidableEq, Repr

/-- `udx_socket_send_t`, or `udx_stream_send_t` if it is a stream's. `id` tells
the requests apart. -/
structure SendReq where
  id : ℕ
  buf : List UInt8 := []
  remoteAddr : SockAddr := {}
  remoteAddrLen : ℕ := 0
  ttl : ℕ := 0
  onSend : Bool
  ofStream : Bool := false
  deriving DecidableEq, Repr

/-- What `uv_udp_try_send` is given, with the TTL the handle has. -/
structure Datagram where
  bytes : List UInt8
  dest : SockAddr
  ttl : ℕ
  deriving DecidableEq, Repr

inductive Status
  | ok | canceled
  | failed (err : ℤ)
  deriving DecidableEq, Repr

/-- The log of a socket. -/
inductive Entry
  /-- A request is taken over with these arguments, to be tried now. -/
  | sent (id : ℕ) (args : SendArgs)
  /-- A retry hands this datagram to `uv_udp_try_send`. -/
  | tried (id : ℕ) (retry : Bool) (d : Datagram)
  /-- `on_send` is called. -/
  | called (id : ℕ) (status : Status)
  /-- The call for a request with a callback, or without one, returned. -/
  | returned (id : ℕ) (onSend : Bool) (ret : Ret)
  deriving DecidableEq, Repr

/-- `udx_socket_t`, as far as it sends. `uvTtl` is the last
`uv_udp_set_ttl`, `uvq` what libuv has queued; `retrying` and `cancelling`
tell which loops over the queue are being run. -/
structure Sock where
  family : Family
  ttl : ℕ := UDX_DEFAULT_TTL
  uvTtl : ℕ := UDX_DEFAULT_TTL
  specificTtlSendQueue : List SendReq := []
  ttlCheck : Bool := false
  ttlCheckTimer : Bool := false
  closed : Bool := false
  uvq : List SendReq := []
  retrying : Bool := false
  cancelling : Bool := false
  nreqs : ℕ := 0
  log : List Entry := []

namespace Sock

def note (e : Entry) (s : Sock) : Sock := { s with log := e :: s.log }

/-- `uv_udp_set_ttl`. -/
def uvUdpSetTtl (ttl : ℕ) (s : Sock) : Sock := { s with uvTtl := ttl }

/-- `on_send` of a request, if it has one. -/
def callback (r : SendReq) (status : Status) (s : Sock) : Sock :=
  if r.onSend then s.note (.called r.id status) else s

/-- `udx__queue_shift`: `rest` is what it leaves. -/
def queueShift (rest : List SendReq) (s : Sock) : Sock := { s with specificTtlSendQueue := rest }

/-- The address as the socket sees it. -/
def seenAddr (dest : SockAddr) (s : Sock) : SockAddr :=
  if s.family = .inet6 ∧ dest.family = .inet then addrToV6 dest else dest

end Sock

/-! ### Calls -/

/-- A new request. -/
def newReq (args : SendArgs) (s : Sock) : SendReq :=
  { id := s.nreqs
    buf := args.buf
    remoteAddr := args.dest
    remoteAddrLen := sockaddrLen args.dest
    ttl := args.ttl.toNat
    onSend := args.onSend }

/-- The fast path of `udx_socket_send_ttl`. -/
def fastPath (r : SendReq) (dest : SockAddr) (s : Sock) : Sock :=
  let s := if r.ttl ≠ 0 then s.uvUdpSetTtl r.ttl else s
  let s := s.note (.tried r.id false ⟨r.buf, dest, s.uvTtl⟩)
  if r.ttl ≠ 0 then s.uvUdpSetTtl s.ttl else s

/-- The first slow path: the request waits for the socket. -/
def slowPathTtl (r : SendReq) (s : Sock) : Sock :=
  { s with
    specificTtlSendQueue := s.specificTtlSendQueue ++ [r]
    ttlCheck := true
    ttlCheckTimer := true }

/-- `uv_udp_send`, which takes the request or refuses it. -/
def uvUdpSend (r : SendReq) (taken : Bool) (s : Sock) : Sock :=
  if taken then { s with uvq := s.uvq ++ [r] } else s

/-- What becomes of a request after `uv_udp_try_send`. -/
def settle (r : SendReq) (err : TrySend) (taken : Bool) (s : Sock) : Sock :=
  if err = .again then
    if r.ttl ≠ 0 then slowPathTtl r s else uvUdpSend r taken s
  else s.callback r .ok

/-- `udx_socket_send_ttl`; `slow` is `UDX_DEBUG_FORCE_SEND_SLOW_PATH`. The
callback it may end with is reported before it returns. -/
def udxSocketSendTtl (args : SendArgs) (slow : Bool) (err : TrySend) (taken : Bool) (s : Sock) : Sock :=
  let r := newReq args s
  let s := { s with nreqs := s.nreqs + 1 }
  if args.ttl < 0 ∨ args.ttl > 255 then s.note (.returned r.id args.onSend .einval)
  else if args.dest.family ≠ .inet ∧ args.dest.family ≠ .inet6 then
    s.note (.returned r.id args.onSend .einval)
  else
    let s := s.note (.sent r.id args)
    let s := if slow then s else fastPath r (s.seenAddr args.dest) s
    (settle r (if slow then .again else err) taken s).note (.returned r.id args.onSend (.ok 0))

/-- `udx_stream_send` of a stream on this socket, with the datagram it made. -/
def udxStreamSend (connected : Bool) (d : Datagram) (onSend : Bool) (err : TrySend) (taken : Bool)
    (s : Sock) : Sock :=
  let r : SendReq := { id := s.nreqs, onSend := onSend, ofStream := true }
  let s := { s with nreqs := s.nreqs + 1 }
  if !connected then s.note (.returned r.id onSend .enotconn)
  else
    let s := s.note (.tried r.id false { d with ttl := s.uvTtl })
    let s := if err = .again then uvUdpSend r taken s else s.callback r .ok
    s.note (.returned r.id onSend (.ok 0))

def udxSocketSetTtl (ttl : ℤ) (s : Sock) : Sock :=
  if ttl < 1 ∨ ttl > 255 then s
  else { s with ttl := ttl.toNat }.uvUdpSetTtl ttl.toNat

/-- `udx_socket_close` up to its loop over the queue. -/
def udxSocketClose (streams : Bool) (s : Sock) : Sock :=
  if streams then s
  else { s with closed := true, ttlCheck := false, ttlCheckTimer := false, cancelling := true }

/-- Once round the loop of `udx_socket_close`. -/
def cancelNext (s : Sock) : Sock :=
  match s.specificTtlSendQueue with
  | [] => { s with cancelling := false }
  | r :: rest => (s.queueShift rest).callback r .canceled

/-! ### The retries -/

/-- `retry_send_specific_ttl` after its loop. -/
def retryEnd (s : Sock) : Sock :=
  let s := { s with retrying := false }.uvUdpSetTtl s.ttl
  if s.specificTtlSendQueue = [] then { s with ttlCheck := false, ttlCheckTimer := false } else s

/-- Once round the loop of `retry_send_specific_ttl`. -/
def retryNext (err : TrySend) (s : Sock) : Sock :=
  match s.specificTtlSendQueue with
  | [] => retryEnd s
  | r :: rest =>
    let s := s.uvUdpSetTtl r.ttl
    let s := s.note (.tried r.id true ⟨r.buf, r.remoteAddr, r.ttl⟩)
    if err = .again then retryEnd s
    else (s.queueShift rest).callback r .ok

/-- The status `on_send` is given: `on_socket_send_slow` passes libuv's on,
`on_stream_send_slow` does not. -/
def slowStatus (r : SendReq) (status : Status) : Status := if r.ofStream then .ok else status

/-- libuv is done with a request: `on_socket_send_slow`,
`on_stream_send_slow`. -/
def uvDone (i : ℕ) (status : Status) (s : Sock) : Sock :=
  match s.uvq[i]? with
  | none => s
  | some r => { s with uvq := s.uvq.eraseIdx i }.callback r (slowStatus r status)

/-! ### Runs -/

inductive Act
  | sendTtl (args : SendArgs) (slow : Bool) (err : TrySend) (taken : Bool)
  | streamSend (connected : Bool) (d : Datagram) (onSend : Bool) (err : TrySend) (taken : Bool)
  | setTtl (ttl : ℤ)
  | close (streams : Bool)
  | cancelNext
  | retry
  | retryNext (err : TrySend)
  | uvDone (i : ℕ) (status : Status)

/-- When a step can be taken: the calls at any time, what a loop does next
while it is the innermost, the event loop where no loop is being run. -/
def Act.enabled (s : Sock) : Act → Bool
  | .sendTtl .. | .streamSend .. | .setTtl _ => true
  | .close _ => !s.closed
  | .cancelNext => s.cancelling
  | .retry => s.ttlCheck && !s.closed && !s.retrying && !s.cancelling
  | .retryNext _ => s.retrying && !s.cancelling
  | .uvDone .. => !s.retrying && !s.cancelling

def step : Act → Sock → Sock
  | .sendTtl args slow err taken, s => udxSocketSendTtl args slow err taken s
  | .streamSend connected d onSend err taken, s => udxStreamSend connected d onSend err taken s
  | .setTtl ttl, s => udxSocketSetTtl ttl s
  | .close streams, s => udxSocketClose streams s
  | .cancelNext, s => cancelNext s
  | .retry, s => { s with retrying := true }
  | .retryNext err, s => retryNext err s
  | .uvDone i status, s => uvDone i status s

/-- The states of a bound socket in runs whose steps all meet `C`. -/
inductive Reach (C : Sock → Act → Bool) (family : Family) : Sock → Prop
  | init : Reach C family { family := family }
  | step {s} (a : Act) (h : Reach C family s) (ha : a.enabled s = true) (hc : C s a = true) :
    Reach C family (step a s)

/-- A run of any steps. -/
def runAll : List Act → Sock → Sock
  | [], s => s
  | a :: l, s => runAll l (step a s)

/-- Each step of a run can be taken and meets `C`. -/
def runs (C : Sock → Act → Bool) : List Act → Sock → Bool
  | [], _ => true
  | a :: l, s => a.enabled s && C s a && runs C l (step a s)

theorem Reach.run {C : Sock → Act → Bool} {family : Family} (l : List Act) {s : Sock}
    (h : Reach C family s) (hl : runs C l s = true) : Reach C family (runAll l s) := by
  induction l generalizing s with
  | nil => exact h
  | cons a l ih =>
    rw [runs, Bool.and_eq_true, Bool.and_eq_true] at hl
    exact ih (.step a h hl.1.1 hl.1.2) hl.2

/-! ### What the parts of a step leave alone -/

theorem fastPath_log (r : SendReq) (dest : SockAddr) (s : Sock) :
    (fastPath r dest s).log =
      .tried r.id false ⟨r.buf, dest, if r.ttl ≠ 0 then r.ttl else s.uvTtl⟩ :: s.log := by
  unfold fastPath
  dsimp only
  split_ifs <;> rfl

theorem fastPath_loops {r : SendReq} {dest : SockAddr} {s : Sock} :
    (fastPath r dest s).closed = s.closed ∧ (fastPath r dest s).cancelling = s.cancelling ∧
      (fastPath r dest s).retrying = s.retrying := by
  unfold fastPath
  dsimp only
  split_ifs <;> exact ⟨rfl, rfl, rfl⟩

/-! ### The two paths of a TTL send -/

/-- What a first try hands to the socket, and what a retry does. -/
def SendArgs.datagram (args : SendArgs) (retry : Bool) (s : Sock) : Datagram :=
  ⟨args.buf, if retry then args.dest else s.seenAddr args.dest, args.ttl.toNat⟩

/-- Whatever path a request with a TTL takes, the socket is given the same
datagram, and has its own TTL again afterwards. In between it has not:
`on_send` inside the loop of retries runs with the TTL of the request that was
retried, so a send with the default TTL made there leaves with that one. -/
structure Agrees (s : Sock) : Prop where
  tries : ∀ id args, .sent id args ∈ s.log → args.ttl ≠ 0 → ∀ retry d, .tried id retry d ∈ s.log →
    d = args.datagram false s
  restored : s.retrying = false → s.uvTtl = s.ttl

/-- No retried request is for an IPv4 address on an IPv6 socket. -/
def Unmapped (s : Sock) : Prop :=
  ∀ id args d, .sent id args ∈ s.log → .tried id true d ∈ s.log →
    ¬ (s.family = .inet6 ∧ args.dest.family = .inet)

/-- The request that is taken over or tried. -/
def Entry.request : Entry → Option ℕ
  | .sent id _ | .tried id .. => some id
  | .called .. | .returned .. => none

/-- What the log tells about the requests. -/
structure Known (s : Sock) : Prop where
  fresh : ∀ e ∈ s.log, ∀ id, e.request = some id → id < s.nreqs
  same : ∀ id a b, .sent id a ∈ s.log → .sent id b ∈ s.log → a = b
  queued : ∀ r ∈ s.specificTtlSendQueue, ∃ args, .sent r.id args ∈ s.log ∧ args.ttl ≠ 0 ∧
    r.buf = args.buf ∧ r.remoteAddr = args.dest ∧ r.ttl = args.ttl.toNat
  retried : ∀ id d, .tried id true d ∈ s.log → ∃ args, .sent id args ∈ s.log ∧ args.ttl ≠ 0
  tried : ∀ id args, .sent id args ∈ s.log → args.ttl ≠ 0 → ∀ retry d, .tried id retry d ∈ s.log →
    d = args.datagram retry s

namespace Known

variable {s t : Sock}

theorem beside (h : Known s) (hf : t.family = s.family) (hn : s.nreqs ≤ t.nreqs)
    (hq : ∀ r ∈ t.specificTtlSendQueue, r ∈ s.specificTtlSendQueue) (hl : t.log = s.log) : Known t := by
  have hseen : ∀ (args : SendArgs) (retry : Bool), args.datagram retry t = args.datagram retry s := by
    intro args retry
    unfold SendArgs.datagram Sock.seenAddr
    rw [hf]
  constructor
  · intro e he id hid
    exact Nat.lt_of_lt_of_le (h.fresh e (hl ▸ he) id hid) hn
  · rw [hl]
    exact h.same
  · intro r hr
    rw [hl]
    exact h.queued r (hq r hr)
  · rw [hl]
    exact h.retried
  · intro id args hs httl retry d hd
    rw [hseen]
    exact h.tried id args (hl ▸ hs) httl retry d (hl ▸ hd)

/-- A callback, or the return of a call. -/
theorem plain (h : Known s) {e : Entry} (hnone : e.request = none) : Known (s.note e) := by
  have hold : ∀ e', e' ∈ (s.note e).log → e'.request ≠ none → e' ∈ s.log :=
    fun e' he hne => (List.mem_cons.mp he).resolve_left fun heq => hne (heq ▸ hnone)
  constructor
  · intro e' he id hid
    exact h.fresh e' (hold e' he (by rw [hid]; nofun)) id hid
  · exact fun id a b ha hb => h.same id a b (hold _ ha nofun) (hold _ hb nofun)
  · intro r hr
    obtain ⟨args, ha, hrest⟩ := h.queued r hr
    exact ⟨args, List.mem_cons_of_mem e ha, hrest⟩
  · intro id d hd
    obtain ⟨args, ha, httl⟩ := h.retried id d (hold _ hd nofun)
    exact ⟨args, List.mem_cons_of_mem e ha, httl⟩
  · exact fun id args ha httl retry d hd => h.tried id args (hold _ ha nofun) httl retry d (hold _ hd nofun)

theorem callback (h : Known s) (r : SendReq) (status : Status) : Known (s.callback r status) := by
  unfold Sock.callback
  split
  · exact h.plain rfl
  · exact h

theorem queueShift (h : Known s) {r : SendReq} {rest : List SendReq}
    (hq : s.specificTtlSendQueue = r :: rest) : Known (s.queueShift rest) :=
  h.beside rfl (Nat.le_refl _) (fun _ hr => hq ▸ List.mem_cons_of_mem r hr) rfl

/-- A new request is known before anything is tried. -/
theorem sent (h : Known s) {id : ℕ} (hid : id < s.nreqs) (hnew : ∀ e ∈ s.log, e.request ≠ some id)
    (args : SendArgs) : Known (s.note (.sent id args)) := by
  have hold : ∀ id' args', .sent id' args' ∈ (s.note (.sent id args)).log →
      id' = id ∧ args' = args ∨ .sent id' args' ∈ s.log := by
    intro id' args' he
    rcases List.mem_cons.mp he with he | he
    · injection he with h1 h2
      exact .inl ⟨h1, h2⟩
    · exact .inr he
  have ht : ∀ id' retry d, .tried id' retry d ∈ (s.note (.sent id args)).log → .tried id' retry d ∈ s.log :=
    fun id' retry d he => (List.mem_cons.mp he).resolve_left nofun
  constructor
  · intro e he id' hid'
    rcases List.mem_cons.mp he with rfl | he
    · exact Option.some.inj hid' ▸ hid
    · exact h.fresh e he id' hid'
  · intro id' a b ha hb
    rcases hold id' a ha with ⟨hid', heq⟩ | hold_a
    · rcases hold id' b hb with ⟨-, heq'⟩ | hold_b
      · exact heq.trans heq'.symm
      · exact absurd (congrArg some hid') (hnew _ hold_b)
    · rcases hold id' b hb with ⟨hid', -⟩ | hold_b
      · exact absurd (congrArg some hid') (hnew _ hold_a)
      · exact h.same id' a b hold_a hold_b
  · intro r hr
    obtain ⟨args', ha, hrest⟩ := h.queued r hr
    exact ⟨args', List.mem_cons_of_mem _ ha, hrest⟩
  · intro id' d hd
    obtain ⟨args', ha, httl⟩ := h.retried id' d (ht id' true d hd)
    exact ⟨args', List.mem_cons_of_mem _ ha, httl⟩
  · intro id' args' ha httl retry d hd
    rcases hold id' args' ha with ⟨rfl, rfl⟩ | ha
    · exact absurd rfl (hnew _ (ht id' retry d hd))
    · exact h.tried id' args' ha httl retry d (ht id' retry d hd)

/-- A try for a request with known arguments, or for one without any. -/
theorem tries (h : Known s) {id : ℕ} {retry : Bool} {d : Datagram} (hid : id < s.nreqs)
    (hre : retry = true → ∃ args, .sent id args ∈ s.log ∧ args.ttl ≠ 0)
    (hd : ∀ args, .sent id args ∈ s.log → args.ttl ≠ 0 → d = args.datagram retry s) :
    Known (s.note (.tried id retry d)) := by
  have hs : ∀ id' args, .sent id' args ∈ (s.note (.tried id retry d)).log → .sent id' args ∈ s.log :=
    fun id' args he => (List.mem_cons.mp he).resolve_left nofun
  constructor
  · intro e he id' hid'
    rcases List.mem_cons.mp he with rfl | he
    · exact Option.some.inj hid' ▸ hid
    · exact h.fresh e he id' hid'
  · exact fun id' a b ha hb => h.same id' a b (hs id' a ha) (hs id' b hb)
  · intro r hr
    obtain ⟨args, ha, hrest⟩ := h.queued r hr
    exact ⟨args, List.mem_cons_of_mem _ ha, hrest⟩
  · intro id' d' he
    rcases List.mem_cons.mp he with he | he
    · injection he with h1 h2 h3
      obtain ⟨args, ha, httl⟩ := hre h2.symm
      exact ⟨args, List.mem_cons_of_mem _ (h1 ▸ ha), httl⟩
    · obtain ⟨args, ha, httl⟩ := h.retried id' d' he
      exact ⟨args, List.mem_cons_of_mem _ ha, httl⟩
  · intro id' args ha httl retry' d' he
    rcases List.mem_cons.mp he with he | he
    · injection he with h1 h2 h3
      subst h1 h2 h3
      exact hd args (hs id' args ha) httl
    · exact h.tried id' args (hs id' args ha) httl retry' d' he

end Known

theorem fastPath_known {s : Sock} (h : Known s) {r : SendReq} {dest : SockAddr} (hid : r.id < s.nreqs)
    (hr : ∀ args, .sent r.id args ∈ s.log → args.ttl ≠ 0 →
      r.buf = args.buf ∧ dest = s.seenAddr args.dest ∧ r.ttl = args.ttl.toNat ∧ r.ttl ≠ 0) :
    Known (fastPath r dest s) := by
  unfold fastPath
  dsimp only
  split_ifs with httl
  · have hset : Known (s.uvUdpSetTtl r.ttl) := h.beside rfl (Nat.le_refl _) (fun _ hr => hr) rfl
    have htry : Known ((s.uvUdpSetTtl r.ttl).note (.tried r.id false ⟨r.buf, dest, r.ttl⟩)) := by
      refine hset.tries hid nofun ?_
      intro args ha hne
      obtain ⟨hbuf, hdest, hrttl, -⟩ := hr args ha hne
      rw [hbuf, hdest, hrttl]
      rfl
    exact htry.beside rfl (Nat.le_refl _) (fun _ hr => hr) rfl
  · have htry : Known (s.note (.tried r.id false ⟨r.buf, dest, s.uvTtl⟩)) := by
      refine h.tries hid nofun ?_
      intro args ha hne
      exact absurd (hr args ha hne).2.2.2 httl
    exact htry

theorem settle_known {s : Sock} (h : Known s) {r : SendReq} {args : SendArgs}
    (hs : .sent r.id args ∈ s.log) (hbuf : r.buf = args.buf) (hdest : r.remoteAddr = args.dest)
    (hrttl : r.ttl = args.ttl.toNat) (err : TrySend) (taken : Bool) : Known (settle r err taken s) := by
  unfold settle
  split_ifs with herr httl
  · have hne : args.ttl ≠ 0 := by
      rintro hzero
      rw [hzero] at hrttl
      exact httl hrttl
    refine ⟨h.fresh, h.same, ?_, h.retried, h.tried⟩
    intro r' hr'
    rcases List.mem_append.mp hr' with hr' | hr'
    · exact h.queued r' hr'
    · obtain rfl := List.mem_singleton.mp hr'
      exact ⟨args, hs, hne, hbuf, hdest, hrttl⟩
  · unfold uvUdpSend
    split
    · exact h.beside rfl (Nat.le_refl _) (fun _ hr => hr) rfl
    · exact h
  · exact h.callback r .ok

theorem sendTtl_known {s : Sock} (h : Known s) (args : SendArgs) (slow : Bool) (err : TrySend)
    (taken : Bool) : Known (udxSocketSendTtl args slow err taken s) := by
  have hbegin : Known { s with nreqs := s.nreqs + 1 } := h.beside rfl (Nat.le_succ _) (fun _ hr => hr) rfl
  have hid : (newReq args s).id < s.nreqs + 1 := Nat.lt_succ_self _
  unfold udxSocketSendTtl
  dsimp only
  split_ifs with hrange hfamily hslow
  · exact hbegin.plain rfl
  · exact hbegin.plain rfl
  all_goals
    have hnew : ∀ e ∈ s.log, e.request ≠ some (newReq args s).id :=
      fun e he heq => Nat.lt_irrefl _ (h.fresh e he _ heq)
    have hsent := hbegin.sent hid hnew args
    have hmem : .sent (newReq args s).id args ∈
      (Sock.note (.sent (newReq args s).id args) { s with nreqs := s.nreqs + 1 }).log := List.mem_cons_self
    generalize Sock.note (.sent (newReq args s).id args) { s with nreqs := s.nreqs + 1 } = x at hsent hmem ⊢
  · exact (settle_known hsent hmem rfl rfl rfl .again taken).plain rfl
  · have hx : (newReq args s).id < x.nreqs := hsent.fresh _ hmem _ rfl
    have hfast : Known (fastPath (newReq args s) (x.seenAddr args.dest) x) := by
      refine fastPath_known hsent hx ?_
      intro args' ha hne
      obtain rfl := hsent.same _ _ _ ha hmem
      exact ⟨rfl, rfl, rfl, by dsimp only [newReq]; omega⟩
    have hin : .sent (newReq args s).id args ∈ (fastPath (newReq args s) (x.seenAddr args.dest) x).log := by
      rw [fastPath_log]
      exact List.mem_cons_of_mem _ hmem
    exact (settle_known hfast hin rfl rfl rfl err taken).plain rfl

theorem streamSend_known {s : Sock} (h : Known s) (connected : Bool) (d : Datagram) (onSend : Bool)
    (err : TrySend) (taken : Bool) : Known (udxStreamSend connected d onSend err taken s) := by
  have hbegin : Known { s with nreqs := s.nreqs + 1 } := h.beside rfl (Nat.le_succ _) (fun _ hr => hr) rfl
  have hid : s.nreqs < s.nreqs + 1 := Nat.lt_succ_self _
  have htry : Known (Sock.note (.tried s.nreqs false { d with ttl := s.uvTtl })
      { s with nreqs := s.nreqs + 1 }) := by
    refine hbegin.tries hid nofun ?_
    intro args ha
    exact absurd (h.fresh _ ha _ rfl) (Nat.lt_irrefl _)
  unfold udxStreamSend
  dsimp only
  split_ifs with hconnected herr
  · exact hbegin.plain rfl
  · refine Known.plain ?_ rfl
    unfold uvUdpSend
    split
    · exact htry.beside rfl (Nat.le_refl _) (fun _ hr => hr) rfl
    · exact htry
  · exact (htry.callback _ .ok).plain rfl

theorem retryEnd_known {s : Sock} (h : Known s) : Known (retryEnd s) := by
  unfold retryEnd
  dsimp only
  split_ifs <;> exact h.beside rfl (Nat.le_refl _) (fun _ hr => hr) rfl

/-- The request at the head of the queue is known. -/
theorem Known.head {s : Sock} (h : Known s) {r : SendReq} {rest : List SendReq}
    (hq : s.specificTtlSendQueue = r :: rest) : ∃ args, .sent r.id args ∈ s.log ∧ args.ttl ≠ 0 ∧
      r.buf = args.buf ∧ r.remoteAddr = args.dest ∧ r.ttl = args.ttl.toNat :=
  h.queued r (hq ▸ List.mem_cons_self)

theorem retryNext_known {s : Sock} (h : Known s) (err : TrySend) : Known (retryNext err s) := by
  unfold retryNext
  split
  · exact retryEnd_known h
  · next r rest hq =>
    obtain ⟨args, ha, hne, hbuf, hdest, httl⟩ := h.head hq
    have hid := h.fresh _ ha _ rfl
    have hset : Known (s.uvUdpSetTtl r.ttl) := h.beside rfl (Nat.le_refl _) (fun _ hr => hr) rfl
    have htry : Known ((s.uvUdpSetTtl r.ttl).note (.tried r.id true ⟨r.buf, r.remoteAddr, r.ttl⟩)) := by
      refine hset.tries hid (fun _ => ⟨args, ha, hne⟩) ?_
      intro args' ha' _
      obtain rfl := h.same _ _ _ ha ha'
      rw [hbuf, hdest, httl]
      rfl
    dsimp only
    split_ifs
    · exact retryEnd_known htry
    · exact (htry.queueShift hq).callback r .ok

theorem cancelNext_known {s : Sock} (h : Known s) : Known (cancelNext s) := by
  unfold cancelNext
  split
  · exact h.beside rfl (Nat.le_refl _) (fun _ hr => hr) rfl
  · next r rest hq => exact (h.queueShift hq).callback r .canceled

theorem uvDone_known {s : Sock} (h : Known s) (i : ℕ) (status : Status) : Known (uvDone i status s) := by
  unfold uvDone
  split
  · exact h
  · next r _ =>
    have htake : Known { s with uvq := s.uvq.eraseIdx i } := h.beside rfl (Nat.le_refl _) (fun _ hr => hr) rfl
    exact htake.callback r _

theorem step_known {s : Sock} (h : Known s) (a : Act) : Known (step a s) := by
  cases a with
  | sendTtl args slow err taken => exact sendTtl_known h args slow err taken
  | streamSend connected d onSend err taken => exact streamSend_known h connected d onSend err taken
  | setTtl ttl =>
    unfold step udxSocketSetTtl
    dsimp only
    split
    · exact h
    · exact h.beside rfl (Nat.le_refl _) (fun _ hr => hr) rfl
  | close streams =>
    unfold step udxSocketClose
    dsimp only
    split
    · exact h
    · exact h.beside rfl (Nat.le_refl _) (fun _ hr => hr) rfl
  | cancelNext => exact cancelNext_known h
  | retry => exact h.beside rfl (Nat.le_refl _) (fun _ hr => hr) rfl
  | retryNext err => exact retryNext_known h err
  | uvDone i status => exact uvDone_known h i status

theorem Reach.known {C : Sock → Act → Bool} {family : Family} {s : Sock} (h : Reach C family s) : Known s := by
  induction h with
  | init => exact ⟨nofun, nofun, nofun, nofun, nofun⟩
  | step a _ _ _ ih => exact step_known ih a

/-- Outside the retries the socket has its own TTL. -/
def Restored (s : Sock) : Prop := s.retrying = false → s.uvTtl = s.ttl

theorem Restored.beside {s t : Sock} (h : Restored s) (hr : t.retrying = s.retrying)
    (hu : t.uvTtl = s.uvTtl) (ht : t.ttl = s.ttl) : Restored t := by
  unfold Restored
  rw [hr, hu, ht]
  exact h

theorem Restored.callback {s : Sock} (h : Restored s) (r : SendReq) (status : Status) :
    Restored (s.callback r status) := by
  unfold Sock.callback
  split <;> exact h

theorem Restored.fastPath {s : Sock} (h : Restored s) (r : SendReq) (dest : SockAddr) :
    Restored (fastPath r dest s) := by
  unfold Sockets.fastPath
  dsimp only
  split_ifs
  · exact fun _ => rfl
  · exact h

theorem Restored.settle {s : Sock} (h : Restored s) (r : SendReq) (err : TrySend) (taken : Bool) :
    Restored (settle r err taken s) := by
  unfold Sockets.settle
  split_ifs
  · exact h
  · unfold uvUdpSend
    split <;> exact h
  · exact h.callback r .ok

theorem retryEnd_restored (s : Sock) : Restored (retryEnd s) := by
  unfold retryEnd
  dsimp only
  split_ifs <;> exact fun _ => rfl

theorem step_restored {s : Sock} (h : Restored s) (a : Act) (ha : a.enabled s = true) : Restored (step a s) := by
  cases a with
  | sendTtl args slow err taken =>
    unfold step udxSocketSendTtl
    dsimp only
    split_ifs
    · exact h
    · exact h
    · exact Restored.settle (s := Sock.note _ { s with nreqs := _ }) h _ _ _
    · exact (Restored.fastPath (s := Sock.note _ { s with nreqs := _ }) h _ _).settle _ _ _
  | streamSend connected d onSend err taken =>
    unfold step udxStreamSend
    dsimp only
    split_ifs
    · exact h
    · unfold uvUdpSend
      split <;> exact h
    · exact Restored.callback (s := Sock.note _ { s with nreqs := _ }) h _ _
  | setTtl ttl =>
    unfold step udxSocketSetTtl
    dsimp only
    split
    · exact h
    · exact fun _ => rfl
  | close streams =>
    unfold step udxSocketClose
    dsimp only
    split <;> exact h
  | cancelNext =>
    unfold step Sockets.cancelNext
    dsimp only
    split
    · exact h
    · next r rest _ => exact Restored.callback (s := s.queueShift rest) h r .canceled
  | retry => exact nofun
  | retryNext err =>
    rw [Act.enabled, Bool.and_eq_true] at ha
    unfold step Sockets.retryNext
    dsimp only
    split
    · exact retryEnd_restored s
    · next r rest _ =>
      split_ifs
      · exact retryEnd_restored _
      · refine Restored.callback ?_ r .ok
        exact fun hr => absurd (ha.1.symm.trans hr) nofun
  | uvDone i status =>
    unfold step Sockets.uvDone
    dsimp only
    split
    · exact h
    · next r _ => exact Restored.callback (s := { s with uvq := s.uvq.eraseIdx i }) h r _

theorem Reach.restored {C : Sock → Act → Bool} {family : Family} {s : Sock} (h : Reach C family s) :
    Restored s := by
  induction h with
  | init => exact fun _ => rfl
  | step a _ ha _ ih => exact step_restored ih a ha

/-- The two paths of a TTL send agree just where no IPv4 address is retried on
an IPv6 socket. -/
theorem Reach.agrees_iff {C : Sock → Act → Bool} {family : Family} {s : Sock} (h : Reach C family s) :
    Agrees s ↔ Unmapped s := by
  have hknown := h.known
  constructor
  · rintro hagrees id args d ha hd ⟨h6, h4⟩
    obtain ⟨args', ha', hne⟩ := hknown.retried id d hd
    obtain rfl := hknown.same id args args' ha ha'
    have hfast := hagrees.tries id args ha hne true d hd
    have hslow := hknown.tried id args ha hne true d hd
    have hdest : args.dest = addrToV6 args.dest := by
      have heq := congrArg Datagram.dest (hslow.symm.trans hfast)
      simp only [SendArgs.datagram, Sock.seenAddr, h6, h4, and_self, if_true] at heq
      exact heq
    have hfamily : Family.inet = .inet6 := h4 ▸ congrArg SockAddr.family hdest
    exact absurd hfamily nofun
  · intro hunmapped
    refine ⟨?_, h.restored⟩
    intro id args ha hne retry d hd
    have hslow := hknown.tried id args ha hne retry d hd
    cases retry with
    | false => exact hslow
    | true =>
      rw [hslow]
      simp only [SendArgs.datagram, Sock.seenAddr, if_neg (hunmapped id args d ha hd)]
      rfl

/-- Any step may be taken. -/
def anyStep (_ : Sock) (_ : Act) : Bool := true

/-- A request with a TTL of 5 that is sent at its second try. -/
def retriedSend (dest : SockAddr) : List Act :=
  [.sendTtl ⟨[1], dest, 5, true⟩ false .again true, .retry, .retryNext .sent, .retryNext .sent]

/-- The destination is an IPv6 address. -/
def retriedInet6 : Sock := runAll (retriedSend ⟨.inet6, 80, [0, 1]⟩) { family := .inet6 }

theorem Reach.agrees_inet6 : Agrees retriedInet6 := by
  have h : Reach anyStep .inet6 retriedInet6 := Reach.init.run _ (by decide)
  refine h.agrees_iff.mpr ?_
  intro id args d ha _ hmapped
  have hfamily : ∀ e ∈ retriedInet6.log,
      (match e with | .sent _ args => args.dest.family != .inet | _ => true) = true := by
    decide
  have hne : (args.dest.family != .inet) = true := hfamily _ ha
  rw [hmapped.2] at hne
  exact absurd hne (by decide)

/-- The retry of an IPv4 destination goes to the address as it was given. -/
theorem Reach.agrees_inet : ∃ s, Reach anyStep .inet6 s ∧ ¬ Agrees s := by
  have h : Reach anyStep .inet6 (runAll (retriedSend ⟨.inet, 80, [127, 0, 0, 1]⟩) { family := .inet6 }) :=
    Reach.init.run _ (by decide)
  refine ⟨_, h, fun hagrees => ?_⟩
  have hslow := hagrees.tries 0 ⟨[1], ⟨.inet, 80, [127, 0, 0, 1]⟩, 5, true⟩ (by decide) (by decide) true
    ⟨[1], ⟨.inet, 80, [127, 0, 0, 1]⟩, 5⟩ (by decide)
  exact absurd hslow (by decide)

/-! ### Completion -/

def Entry.isCall (id : ℕ) : Entry → Bool
  | .called i _ => i == id
  | _ => false

def SendReq.owns (id : ℕ) (r : SendReq) : Bool := r.onSend && r.id == id

/-- How often `on_send` of request `id` was called. -/
def Sock.calls (id : ℕ) (s : Sock) : ℕ := s.log.countP (Entry.isCall id)

/-- How often request `id` waits, with a callback to call. -/
def Sock.held (id : ℕ) (s : Sock) : ℕ :=
  s.specificTtlSendQueue.countP (SendReq.owns id) + s.uvq.countP (SendReq.owns id)

/-- A queue is served by its retries, or by the loop that empties it. -/
def Served (s : Sock) : Prop :=
  ∀ r ∈ s.specificTtlSendQueue, r.onSend = true →
    if s.closed then s.cancelling = true ∨ s.retrying = true else s.ttlCheck = true

/-- A request is completed once if the call took it, and never if it did
not. -/
structure Completed (s : Sock) : Prop where
  once : ∀ id, .returned id true (.ok 0) ∈ s.log → s.calls id + s.held id = 1
  never : ∀ id ret, .returned id true ret ∈ s.log → ret ≠ .ok 0 → s.calls id + s.held id = 0
  served : Served s

/-- The arguments `udx_socket_send_ttl` takes. -/
def SendArgs.valid (args : SendArgs) : Bool :=
  0 ≤ args.ttl && args.ttl ≤ 255 && args.dest.family != .unspec

/-- The checks of `udx_socket_send_ttl` let nothing else through. -/
theorem SendArgs.valid_of_checks (args : SendArgs) (hrange : ¬ (args.ttl < 0 ∨ args.ttl > 255))
    (hfamily : ¬ (args.dest.family ≠ .inet ∧ args.dest.family ≠ .inet6)) : args.valid = true := by
  have hspec : args.dest.family ≠ .unspec := by
    intro heq
    rw [heq] at hfamily
    exact hfamily ⟨nofun, nofun⟩
  simp only [SendArgs.valid, Bool.and_eq_true, decide_eq_true_eq, bne_iff_ne]
  exact ⟨by omega, hspec⟩

/-- libuv takes what it is given to queue; no request joins the queue of a
closed socket that no loop is emptying, and the retries leave none there. -/
def kept (s : Sock) : Act → Bool
  | .sendTtl args slow err taken =>
    !args.onSend || !args.valid || !(slow || err == .again) ||
      (if args.ttl = 0 then taken else !s.closed || s.cancelling || s.retrying)
  | .streamSend connected _ onSend err taken => !onSend || !connected || err != .again || taken
  | .retryNext err => err != .again || !s.closed || s.specificTtlSendQueue.all (!·.onSend)
  | _ => true

/-- 1 for the request itself. -/
def SendReq.share (id : ℕ) (r : SendReq) : ℕ := if r.owns id then 1 else 0

/-- Calls made and calls to come. -/
def Sock.total (id : ℕ) (s : Sock) : ℕ := s.calls id + s.held id

theorem note_total {id : ℕ} {e : Entry} (he : e.isCall id = false) (s : Sock) : (s.note e).total id = s.total id := by
  unfold Sock.total Sock.calls Sock.note
  rw [List.countP_cons_of_neg (by rw [he]; nofun)]
  rfl

theorem callback_total (id : ℕ) (r : SendReq) (status : Status) (s : Sock) :
    (s.callback r status).total id = s.total id + r.share id := by
  unfold Sock.callback SendReq.share SendReq.owns
  cases r.onSend with
  | false => simp
  | true =>
    unfold Sock.total Sock.calls Sock.held Sock.note
    cases hid : r.id == id <;> simp [Entry.isCall, hid]
    omega

theorem slowPathTtl_total (id : ℕ) (r : SendReq) (s : Sock) :
    (slowPathTtl r s).total id = s.total id + r.share id := by
  unfold Sock.total Sock.calls Sock.held slowPathTtl SendReq.share
  simp only [List.countP_append, List.countP_singleton]
  omega

theorem uvUdpSend_total (id : ℕ) (r : SendReq) (s : Sock) :
    (uvUdpSend r true s).total id = s.total id + r.share id := by
  unfold Sock.total Sock.calls Sock.held uvUdpSend SendReq.share
  simp only [if_true, List.countP_append, List.countP_singleton]
  omega

theorem queueShift_total {id : ℕ} {r : SendReq} {rest : List SendReq} {s : Sock}
    (hq : s.specificTtlSendQueue = r :: rest) :
    (s.queueShift rest).total id + r.share id = s.total id := by
  unfold Sock.total Sock.calls Sock.held Sock.queueShift SendReq.share
  simp only [hq, List.countP_cons]
  omega

theorem share_of_not (id : ℕ) {r : SendReq} (h : r.onSend = false) : r.share id = 0 := by
  simp [SendReq.share, SendReq.owns, h]

theorem share_of_ne {id : ℕ} {r : SendReq} (h : r.id ≠ id) : r.share id = 0 := by
  simp [SendReq.share, SendReq.owns, h]

/-! ### What a step does to the counts -/

theorem settle_total (id : ℕ) (r : SendReq) (err : TrySend) (taken : Bool) (s : Sock)
    (h : r.onSend = true → err = .again → r.ttl = 0 → taken = true) :
    (settle r err taken s).total id = s.total id + r.share id := by
  unfold settle
  split_ifs with herr httl
  · exact slowPathTtl_total id r s
  · cases taken with
    | true => exact uvUdpSend_total id r s
    | false =>
      have hnone : r.onSend = false := by
        cases hon : r.onSend with
        | true => exact (h hon herr (not_not.mp httl)).symm
        | false => rfl
      rw [share_of_not id hnone]
      rfl
  · exact callback_total id r .ok s

theorem fastPath_total (id : ℕ) (r : SendReq) (dest : SockAddr) (s : Sock) :
    (fastPath r dest s).total id = s.total id := by
  unfold fastPath
  dsimp only
  split_ifs <;> exact note_total rfl _

theorem retryEnd_total (id : ℕ) (s : Sock) : (retryEnd s).total id = s.total id := by
  unfold retryEnd
  dsimp only
  split_ifs <;> rfl

theorem retryNext_total (id : ℕ) (err : TrySend) (s : Sock) : (retryNext err s).total id = s.total id := by
  unfold retryNext
  split
  · exact retryEnd_total id s
  · next r rest hq =>
    dsimp only
    split_ifs
    · rw [retryEnd_total]
      exact note_total rfl _
    · rw [callback_total, queueShift_total (r := r) (by exact hq)]
      exact note_total rfl _

theorem cancelNext_total (id : ℕ) (s : Sock) : (cancelNext s).total id = s.total id := by
  unfold cancelNext
  split
  · rfl
  · next r rest hq => rw [callback_total, queueShift_total hq]

theorem uvDone_total (id i : ℕ) (status : Status) (s : Sock) :
    (uvDone i status s).total id = s.total id := by
  unfold uvDone
  split
  · rfl
  · next r hr =>
    rw [callback_total]
    obtain ⟨hi, hget⟩ := List.getElem?_eq_some_iff.mp hr
    have hcount := (List.getElem_cons_eraseIdx_perm hi).countP_eq (SendReq.owns id)
    rw [hget, List.countP_cons] at hcount
    unfold Sock.total Sock.calls Sock.held SendReq.share
    dsimp only
    omega

/-- No call has returned between the two, or begun. -/
structure Midway (s t : Sock) : Prop where
  nreqs : t.nreqs = s.nreqs
  returned : ∀ id onSend ret, .returned id onSend ret ∈ t.log → .returned id onSend ret ∈ s.log

namespace Midway

variable {s t u : Sock}

theorem beside (hn : t.nreqs = s.nreqs) (hl : t.log = s.log) : Midway s t :=
  ⟨hn, fun _ _ _ he => hl ▸ he⟩

theorem trans (h : Midway s t) (h' : Midway t u) : Midway s u :=
  ⟨h'.nreqs.trans h.nreqs, fun id onSend ret he => h.returned id onSend ret (h'.returned id onSend ret he)⟩

theorem note {e : Entry} (he : ∀ id onSend ret, e ≠ .returned id onSend ret) : Midway s (s.note e) :=
  ⟨rfl, fun id onSend ret hm => (List.mem_cons.mp hm).resolve_left fun heq => he id onSend ret heq.symm⟩

theorem callback (r : SendReq) (status : Status) : Midway s (s.callback r status) := by
  unfold Sock.callback
  split
  · exact note nofun
  · exact beside rfl rfl

theorem queueShift (rest : List SendReq) : Midway s (s.queueShift rest) := beside rfl rfl

theorem settle (r : SendReq) (err : TrySend) (taken : Bool) : Midway s (settle r err taken s) := by
  unfold Sockets.settle
  split_ifs
  · exact beside rfl rfl
  · unfold uvUdpSend
    split <;> exact beside rfl rfl
  · exact callback r .ok

theorem fastPath (r : SendReq) (dest : SockAddr) : Midway s (fastPath r dest s) := by
  have htry : ∀ x : Sock, Midway x (x.note (.tried r.id false ⟨r.buf, dest, x.uvTtl⟩)) := fun x => note nofun
  unfold Sockets.fastPath
  dsimp only
  split_ifs
  · have hset : Midway s (s.uvUdpSetTtl r.ttl) := beside rfl rfl
    exact (hset.trans (htry _)).trans (beside rfl rfl)
  · exact htry s

theorem retryEnd : Midway s (retryEnd s) := by
  unfold Sockets.retryEnd
  dsimp only
  split_ifs <;> exact beside rfl rfl

theorem retryNext (err : TrySend) : Midway s (retryNext err s) := by
  unfold Sockets.retryNext
  split
  · exact retryEnd
  · next r rest _ =>
    have hset : Midway s (s.uvUdpSetTtl r.ttl) := beside rfl rfl
    have htry : Midway s ((s.uvUdpSetTtl r.ttl).note (.tried r.id true ⟨r.buf, r.remoteAddr, r.ttl⟩)) :=
      hset.trans (note nofun)
    dsimp only
    split_ifs
    · exact htry.trans retryEnd
    · exact (htry.trans (queueShift rest)).trans (callback r .ok)

theorem cancelNext : Midway s (cancelNext s) := by
  unfold Sockets.cancelNext
  split
  · exact beside rfl rfl
  · next r rest _ => exact (queueShift rest).trans (callback r .canceled)

theorem uvDone (i : ℕ) (status : Status) : Midway s (uvDone i status s) := by
  unfold Sockets.uvDone
  split
  · exact beside rfl rfl
  · next r _ =>
    have htake : Midway s { s with uvq := s.uvq.eraseIdx i } := beside rfl rfl
    exact htake.trans (callback r _)

end Midway

/-- The counts of the requests. -/
structure Tallied (s : Sock) : Prop where
  fresh : ∀ id, s.nreqs ≤ id → s.total id = 0
  ids : ∀ id onSend ret, .returned id onSend ret ∈ s.log → id < s.nreqs
  once : ∀ id, .returned id true (.ok 0) ∈ s.log → s.total id = 1
  never : ∀ id ret, .returned id true ret ∈ s.log → ret ≠ .ok 0 → s.total id = 0

theorem Tallied.midway {s t : Sock} (h : Tallied s) (hm : Midway s t) (ht : ∀ id, t.total id = s.total id) :
    Tallied t := by
  constructor
  · intro id hid
    rw [ht, h.fresh id (hm.nreqs ▸ hid)]
  · intro id onSend ret he
    exact hm.nreqs ▸ h.ids id onSend ret (hm.returned id onSend ret he)
  · intro id he
    rw [ht, h.once id (hm.returned id true _ he)]
  · intro id ret he hne
    rw [ht, h.never id ret (hm.returned id true ret he) hne]

/-- A call for a new request returns. -/
theorem Tallied.returns {s t : Sock} (h : Tallied s) (hm : Midway { s with nreqs := s.nreqs + 1 } t)
    {onSend : Bool} {ret : Ret} (ht : ∀ id, id ≠ s.nreqs → t.total id = s.total id)
    (hok : onSend = true → ret = .ok 0 → t.total s.nreqs = 1)
    (herr : onSend = true → ret ≠ .ok 0 → t.total s.nreqs = 0) :
    Tallied (t.note (.returned s.nreqs onSend ret)) := by
  have hn : t.nreqs = s.nreqs + 1 := hm.nreqs
  have htotal : ∀ id, (t.note (.returned s.nreqs onSend ret)).total id = t.total id := fun id => note_total rfl t
  have hold : ∀ id onSend' ret', .returned id onSend' ret' ∈ (t.note (.returned s.nreqs onSend ret)).log →
      id = s.nreqs ∧ onSend' = onSend ∧ ret' = ret ∨
        .returned id onSend' ret' ∈ s.log ∧ id < s.nreqs := by
    intro id onSend' ret' he
    rcases List.mem_cons.mp he with he | he
    · injection he with h1 h2 h3
      exact .inl ⟨h1, h2, h3⟩
    · have hs := hm.returned id onSend' ret' he
      exact .inr ⟨hs, h.ids id onSend' ret' hs⟩
  constructor
  · intro id hid
    have hle : s.nreqs + 1 ≤ id := hn ▸ hid
    rw [htotal, ht id (by omega), h.fresh id (by omega)]
  · intro id onSend' ret' he
    have hlt : id < t.nreqs := by
      rcases hold id onSend' ret' he with ⟨hid, -⟩ | ⟨-, hid⟩ <;> omega
    exact hlt
  · intro id he
    rw [htotal]
    rcases hold id true _ he with ⟨rfl, hon, hret⟩ | ⟨he, hid⟩
    · exact hok hon.symm hret.symm
    · rw [ht id (by omega), h.once id he]
  · intro id ret' he hne
    rw [htotal]
    rcases hold id true ret' he with ⟨rfl, hon, hret⟩ | ⟨he, hid⟩
    · exact herr hon.symm (hret ▸ hne)
    · rw [ht id (by omega), h.never id ret' he hne]

theorem sendTtl_tallied {s : Sock} (h : Tallied s) (args : SendArgs) (slow : Bool) (err : TrySend)
    (taken : Bool) (hk : kept s (.sendTtl args slow err taken) = true) :
    Tallied (udxSocketSendTtl args slow err taken s) := by
  have hzero : s.total s.nreqs = 0 := h.fresh _ (Nat.le_refl _)
  have hbegin : Midway { s with nreqs := s.nreqs + 1 } { s with nreqs := s.nreqs + 1 } := .beside rfl rfl
  unfold udxSocketSendTtl
  dsimp only
  by_cases hrange : args.ttl < 0 ∨ args.ttl > 255
  · rw [if_pos hrange]
    exact h.returns hbegin (fun _ _ => rfl) nofun fun _ _ => hzero
  by_cases hfamily : args.dest.family ≠ .inet ∧ args.dest.family ≠ .inet6
  · rw [if_neg hrange, if_pos hfamily]
    exact h.returns hbegin (fun _ _ => rfl) nofun fun _ _ => hzero
  rw [if_neg hrange, if_neg hfamily]
  have hvalid := args.valid_of_checks hrange hfamily
  have htaken : ∀ e : TrySend, (slow || err == .again) = true ∨ e ≠ .again → (newReq args s).onSend = true →
      e = .again → (newReq args s).ttl = 0 → taken = true := by
    intro e he hon heq httl
    have hagain := he.resolve_right fun hne => hne heq
    have hargs : args.ttl = 0 := by
      have htoNat : args.ttl.toNat = 0 := httl
      omega
    have hons : args.onSend = true := hon
    simpa [kept, hons, hvalid, hagain, hargs] using hk
  have hsent : Midway { s with nreqs := s.nreqs + 1 }
      (Sock.note (.sent (newReq args s).id args) { s with nreqs := s.nreqs + 1 }) := .note nofun
  have htotal : ∀ id, (Sock.note (.sent (newReq args s).id args) { s with nreqs := s.nreqs + 1 }).total id =
      s.total id := fun id => note_total rfl _
  generalize Sock.note (.sent (newReq args s).id args) { s with nreqs := s.nreqs + 1 } = x at hsent htotal ⊢
  have hshare : ∀ id, id ≠ s.nreqs → (newReq args s).share id = 0 := fun id hid => share_of_ne fun heq => hid heq.symm
  have hown : args.onSend = true → (newReq args s).share s.nreqs = 1 := by
    intro hon
    simp [SendReq.share, SendReq.owns, newReq, hon]
  cases slow with
  | true =>
    simp only [if_true]
    have hsettle := fun id => settle_total id (newReq args s) .again taken x (htaken .again (.inl rfl))
    refine h.returns (hsent.trans (.settle _ _ _)) ?_ ?_ nofun
    · intro id hid
      rw [hsettle, hshare id hid, htotal, Nat.add_zero]
    · intro hon _
      rw [hsettle, hown hon, htotal, hzero]
  | false =>
    simp only [Bool.false_eq_true, if_false]
    have hagain : (false || err == .again) = true ∨ err ≠ .again := by
      cases err <;> simp
    have hsettle := fun id => settle_total id (newReq args s) err taken
      (fastPath (newReq args s) (x.seenAddr args.dest) x) (htaken err hagain)
    refine h.returns ((hsent.trans (.fastPath _ _)).trans (.settle _ _ _)) ?_ ?_ nofun
    · intro id hid
      rw [hsettle, hshare id hid, fastPath_total, htotal, Nat.add_zero]
    · intro hon _
      rw [hsettle, hown hon, fastPath_total, htotal, hzero]

theorem streamSend_tallied {s : Sock} (h : Tallied s) (connected : Bool) (d : Datagram) (onSend : Bool)
    (err : TrySend) (taken : Bool) (hk : kept s (.streamSend connected d onSend err taken) = true) :
    Tallied (udxStreamSend connected d onSend err taken s) := by
  have hzero : s.total s.nreqs = 0 := h.fresh _ (Nat.le_refl _)
  have hbegin : Midway { s with nreqs := s.nreqs + 1 } { s with nreqs := s.nreqs + 1 } := .beside rfl rfl
  unfold udxStreamSend
  dsimp only
  by_cases hconnected : (!connected) = true
  · rw [if_pos hconnected]
    exact h.returns hbegin (fun _ _ => rfl) nofun fun _ _ => hzero
  rw [if_neg hconnected]
  have htry : Midway { s with nreqs := s.nreqs + 1 } (Sock.note
      (.tried s.nreqs false { d with ttl := s.uvTtl }) { s with nreqs := s.nreqs + 1 }) := .note nofun
  have htotal : ∀ id, (Sock.note (.tried s.nreqs false { d with ttl := s.uvTtl })
      { s with nreqs := s.nreqs + 1 }).total id = s.total id := fun id => note_total rfl _
  generalize Sock.note (.tried s.nreqs false { d with ttl := s.uvTtl })
    { s with nreqs := s.nreqs + 1 } = x at htry htotal ⊢
  -- it is `settle` for a request with the default TTL
  have hsettle : (if err = .again then uvUdpSend { id := s.nreqs, onSend := onSend, ofStream := true } taken x
      else x.callback { id := s.nreqs, onSend := onSend, ofStream := true } .ok) =
        settle { id := s.nreqs, onSend := onSend, ofStream := true } err taken x := rfl
  rw [hsettle]
  have hcount := fun id => settle_total id { id := s.nreqs, onSend := onSend, ofStream := true } err taken x (by
    intro hon heq _
    have hons : onSend = true := hon
    have hconn : connected = true := by simpa using hconnected
    simpa [kept, hons, hconn, heq] using hk)
  refine h.returns (htry.trans (.settle _ _ _)) ?_ ?_ nofun
  · intro id hid
    rw [hcount, share_of_ne fun heq => hid heq.symm, htotal, Nat.add_zero]
  · intro hon _
    rw [hcount, htotal, hzero]
    simp [SendReq.share, SendReq.owns, hon]

theorem step_tallied {s : Sock} (h : Tallied s) (a : Act) (hk : kept s a = true) : Tallied (step a s) := by
  cases a with
  | sendTtl args slow err taken => exact sendTtl_tallied h args slow err taken hk
  | streamSend connected d onSend err taken => exact streamSend_tallied h connected d onSend err taken hk
  | setTtl ttl =>
    unfold step udxSocketSetTtl
    dsimp only
    split
    · exact h
    · exact h.midway (.beside rfl rfl) fun _ => rfl
  | close streams =>
    unfold step udxSocketClose
    dsimp only
    split
    · exact h
    · exact h.midway (.beside rfl rfl) fun _ => rfl
  | cancelNext => exact h.midway .cancelNext fun id => cancelNext_total id s
  | retry => exact h.midway (.beside rfl rfl) fun _ => rfl
  | retryNext err => exact h.midway (.retryNext err) fun id => retryNext_total id err s
  | uvDone i status => exact h.midway (.uvDone i status) fun id => uvDone_total id i status s

/-! ### Who serves the queue -/

namespace Served

variable {s t : Sock}

theorem beside (h : Served s) (hq : ∀ r ∈ t.specificTtlSendQueue, r ∈ s.specificTtlSendQueue)
    (hc : t.closed = s.closed) (hcancel : t.cancelling = s.cancelling) (hr : t.retrying = s.retrying)
    (ht : t.ttlCheck = s.ttlCheck) : Served t := by
  intro r hmem hon
  rw [hc, hcancel, hr, ht]
  exact h r (hq r hmem) hon

theorem callback (h : Served s) (r : SendReq) (status : Status) : Served (s.callback r status) := by
  unfold Sock.callback
  split <;> exact h

theorem fastPath (h : Served s) (r : SendReq) (dest : SockAddr) : Served (fastPath r dest s) := by
  unfold Sockets.fastPath
  dsimp only
  split_ifs <;> exact h

theorem settle (h : Served s) (r : SendReq) (err : TrySend) (taken : Bool)
    (hopen : r.onSend = true → err = .again → r.ttl ≠ 0 →
      s.closed = true → s.cancelling = true ∨ s.retrying = true) : Served (settle r err taken s) := by
  unfold Sockets.settle
  split_ifs with herr httl
  · intro r' hr' hon
    unfold slowPathTtl at hr' ⊢
    dsimp only at hr' ⊢
    split
    · next hclosed =>
      rcases List.mem_append.mp hr' with hold | hnew
      · have hserved := h r' hold hon
        rw [if_pos hclosed] at hserved
        exact hserved
      · obtain rfl := List.mem_singleton.mp hnew
        exact hopen hon herr httl hclosed
    · rfl
  · unfold uvUdpSend
    split <;> exact h
  · exact h.callback r .ok

theorem retryNext (h : Served s) (err : TrySend) (hk : kept s (.retryNext err) = true) :
    Served (retryNext err s) := by
  unfold Sockets.retryNext
  split
  · next hq =>
    unfold retryEnd Sock.uvUdpSetTtl
    intro r hr
    dsimp only at hr
    rw [if_pos hq] at hr
    exact absurd (hq ▸ hr) List.not_mem_nil
  · next r rest hq =>
    dsimp only
    split_ifs with hagain
    · unfold retryEnd
      dsimp only
      split_ifs with hempty
      · exact absurd (hq.symm.trans hempty) nofun
      · intro r' hr' hon
        split
        · next hclosed =>
          -- a closed socket is left with requests that nobody waits for
          have hc : s.closed = true := hclosed
          have hnone : s.specificTtlSendQueue.all (!·.onSend) = true := by
            simpa [kept, hagain, hc] using hk
          have hquiet := List.all_eq_true.mp hnone r' hr'
          rw [hon] at hquiet
          exact absurd hquiet nofun
        · next hopen =>
          have hserved := h r' hr' hon
          rw [if_neg (by exact hopen)] at hserved
          exact hserved
    · refine Served.callback ?_ r .ok
      exact h.beside (fun r' hr' => hq ▸ List.mem_cons_of_mem r hr') rfl rfl rfl rfl

theorem cancelNext (h : Served s) : Served (cancelNext s) := by
  unfold Sockets.cancelNext
  split
  · next hq =>
    intro r hr
    exact absurd (hq ▸ hr) List.not_mem_nil
  · next r rest hq =>
    refine Served.callback ?_ r .canceled
    exact h.beside (fun r' hr' => hq ▸ List.mem_cons_of_mem r hr') rfl rfl rfl rfl

theorem sendTtl (h : Served s) (args : SendArgs) (slow : Bool) (err : TrySend) (taken : Bool)
    (hk : kept s (.sendTtl args slow err taken) = true) : Served (udxSocketSendTtl args slow err taken s) := by
  have hbegin : Served (Sock.note (.sent (newReq args s).id args) { s with nreqs := s.nreqs + 1 }) := h
  have hopen : (newReq args s).onSend = true → (slow || err == .again) = true → (newReq args s).ttl ≠ 0 →
      args.valid = true → s.closed = true → s.cancelling = true ∨ s.retrying = true := by
    intro hon hagain httl hvalid hclosed
    have hons : args.onSend = true := hon
    have hne : args.ttl ≠ 0 := by
      intro hz
      exact httl (congrArg Int.toNat hz)
    simpa [kept, hons, hvalid, hagain, hne, hclosed] using hk
  unfold udxSocketSendTtl
  dsimp only
  split_ifs with hrange hfamily hslow
  · exact h
  · exact h
  all_goals have hvalid := args.valid_of_checks hrange hfamily
  · refine Served.settle hbegin _ _ _ ?_
    exact fun hon _ httl hclosed => hopen hon (by rw [hslow]; rfl) httl hvalid hclosed
  · refine Served.settle (hbegin.fastPath _ _) _ _ _ ?_
    intro hon hagain httl hclosed
    rw [fastPath_loops.1] at hclosed
    rw [fastPath_loops.2.1, fastPath_loops.2.2]
    exact hopen hon (by rw [hagain]; exact Bool.or_true _) httl hvalid hclosed

end Served

theorem step_served {s : Sock} (h : Served s) (a : Act) (ha : a.enabled s = true) (hk : kept s a = true) :
    Served (step a s) := by
  cases a with
  | sendTtl args slow err taken => exact h.sendTtl args slow err taken hk
  | streamSend connected d onSend err taken =>
    unfold step udxStreamSend
    dsimp only
    split_ifs
    · exact h
    · unfold uvUdpSend
      split <;> exact h
    · exact Served.callback (s := Sock.note _ { s with nreqs := _ }) h _ _
  | setTtl ttl =>
    unfold step udxSocketSetTtl
    dsimp only
    split <;> exact h
  | close streams =>
    unfold step udxSocketClose
    dsimp only
    split
    · exact h
    · intro r _ _
      rw [if_pos rfl]
      exact .inl rfl
  | cancelNext => exact h.cancelNext
  | retry =>
    simp only [Act.enabled, Bool.and_eq_true, Bool.not_eq_true'] at ha
    have hopen : s.closed = false := ha.1.1.2
    intro r hr hon
    have hserved := h r hr hon
    unfold step
    dsimp only
    rw [hopen] at hserved ⊢
    exact hserved
  | retryNext err => exact h.retryNext err hk
  | uvDone i status =>
    unfold step Sockets.uvDone
    dsimp only
    split
    · exact h
    · next r _ => exact Served.callback (s := { s with uvq := s.uvq.eraseIdx i }) h r _

/-- Where libuv takes what it is given and no request is left on a closed
socket, each is completed once. -/
theorem Reach.completed {family : Family} {s : Sock} (h : Reach kept family s) : Completed s := by
  have hinv : Tallied s ∧ Served s := by
    induction h with
    | init => exact ⟨⟨fun _ _ => rfl, nofun, nofun, nofun⟩, nofun⟩
    | step a _ ha hk ih => exact ⟨step_tallied ih.1 a hk, step_served ih.2 a ha hk⟩
  exact ⟨hinv.1.once, hinv.1.never, hinv.2⟩

/-- A request with a TTL meets a full socket, is retried, sent and completed,
and the next one is cancelled. -/
theorem Reach.completed_canceled : ∃ s, Reach kept .inet s ∧ Completed s ∧ s.calls 0 = 1 ∧ s.calls 1 = 1 := by
  let args : SendArgs := ⟨[1], ⟨.inet, 80, [127, 0, 0, 1]⟩, 5, true⟩
  have h : Reach kept .inet (runAll [.sendTtl args false .again true, .sendTtl args false .again true, .retry,
      .retryNext .sent, .retryNext .again, .close false, .cancelNext, .cancelNext] { family := .inet }) :=
    Reach.init.run _ (by decide)
  exact ⟨_, h, h.completed, by decide, by decide⟩

/-- `uv_udp_send` refuses a request; the call returns 0 all the same. -/
theorem Reach.completed_refused : ∃ s, Reach anyStep .inet s ∧ .returned 0 true (.ok 0) ∈ s.log ∧
    s.calls 0 + s.held 0 = 0 ∧ ¬ Completed s := by
  have h : Reach anyStep .inet (runAll [.sendTtl ⟨[1], ⟨.inet, 80, [127, 0, 0, 1]⟩, 0, true⟩ false .again false]
      { family := .inet }) :=
    Reach.init.run _ (by decide)
  refine ⟨_, h, by decide, by decide, fun hc => ?_⟩
  exact absurd (hc.once 0 (by decide)) (by decide)

end Sockets
end Udx
