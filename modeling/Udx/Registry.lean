/-
# Sockets and streams together (udx.c)

What a `udx_t` keeps about all its sockets and streams: the stream table, the
lists of sockets and streams, TIME-WAIT entries and relay links, from
`udx_stream_init` to `udx_teardown`. What a stream sends and receives is
outside this model; that it ends, times out or is reset is an event.

Closing a stream calls the user back and closes other streams, so the model
is a machine with a call stack: a frame is what a function still has to do,
and `user` on top means that a user callback is running, which may make any
API call. With no frame the event loop runs.

Key definitions: `State`, `closeStreamInternal`, `streamDestroy`,
`socketClose`, `resume`, `Step`, `Reach`.
-/
import Udx.Link
import Udx.Cirbuf
import Udx.StreamTable
import Mathlib.Logic.Function.Iterate

namespace Udx.Registry

open Serial

/-! ### State -/

/-- `udx_stream_t`. -/
structure Stream where
  localId : SeqNo := 0
  connected : Bool := false
  destroying : Bool := false
  closed : Bool := false
  timewaitWanted : Bool := false
  socket : Option ℕ := none
  relayed : Bool := false
  relayTo : Option ℕ := none
  relaying : Cirbuf := .init 2
  /-- libuv holds the destroy packet. -/
  destroyQueued : Bool := false

/-- `udx_socket_t`. -/
structure Socket where
  closed : Bool := false
  /-- `streams`, the head of their list. -/
  streams : Option ℕ := none
  timewaitQueue : List ℕ := []

/-- `udx_timewait_t`. -/
structure Timewait where
  localId : SeqNo := 0
  socket : ℕ := 0
  /-- Its timer runs. -/
  armed : Bool := false

/-- `udx_stream_entry_t`. -/
inductive Entry
  | stream (s : ℕ)
  | timewait (t : ℕ)
  deriving DecidableEq

/-- What a function that called another, or the user, still has to do. -/
inductive Frame
  /-- A user callback is running. -/
  | user
  /-- `close_stream_internal` after its callbacks. -/
  | clearing (s : ℕ)
  /-- Its loop over the relaying streams. -/
  | relaying (s i : ℕ)
  /-- `udx_socket_close` after its callbacks. -/
  | closingSocket (k : ℕ)
  /-- The loop of `udx_teardown` over the sockets, at a socket and after it. -/
  | walkSockets (k : Option ℕ)
  | nextSocket (k : ℕ)
  /-- Its loops over the streams of a socket, or of none. -/
  | walkStreams (k s : Option ℕ)
  | nextStream (k : Option ℕ) (s : ℕ)
  /-- Its loop over the streams of no socket is next. -/
  | walkFree
  deriving DecidableEq

/-- The asserts of the code, and the memory it must not touch. -/
inductive Site
  | closeTwice
  | timewaitEntry
  /-- A relaying stream that is destroyed was closed before. -/
  | relayClosed
  /-- The stream that one relays to was closed before. -/
  | relayTarget
  /-- The buffer of a closed stream. -/
  | relayBuffer
  deriving DecidableEq

inductive LogEntry
  /-- `close_stream_internal`. Ghost: the entry of the stream's id before it,
  and a stream linked to it whose own close is not over. -/
  | streamClosed (s : ℕ) (found : Option Entry) (clearing : Option ℕ)
  /-- `uv_close` of the handles of a socket. Ghost: what is on the stack of a
  close of the socket, or of a stream of it. -/
  | socketClosed (k : ℕ) (inside : Option Frame)
  /-- Ghost: `udx_stream_relay_to`, before it. -/
  | relayTo (s d : ℕ) (src dst : Stream) (key : ℕ → SeqNo)
  | failed (a : Site)

/-- `udx_t`, with all it points to. -/
structure State where
  streams : ℕ → Stream := fun _ => {}
  nstreams : ℕ := 0
  sockets : ℕ → Socket := fun _ => {}
  nsockets : ℕ := 0
  timewaits : ℕ → Timewait := fun _ => {}
  ntimewaits : ℕ := 0
  streamTable : StreamTable Entry := .empty
  /-- `next` and `prev` of the streams. -/
  streamLink : Link := {}
  /-- `next` and `prev` of the sockets. -/
  socketLink : Link := {}
  /-- `udx->streams`. -/
  freeStreams : Option ℕ := none
  /-- `udx->sockets`. -/
  socketList : Option ℕ := none
  teardown : Bool := false
  stack : List Frame := []
  /-- Newest first. -/
  log : List LogEntry := []

namespace State

def setStream (s : ℕ) (f : Stream → Stream) (u : State) : State :=
  { u with streams := Function.update u.streams s (f (u.streams s)) }

def setSocket (k : ℕ) (f : Socket → Socket) (u : State) : State :=
  { u with sockets := Function.update u.sockets k (f (u.sockets k)) }

def setTimewait (t : ℕ) (f : Timewait → Timewait) (u : State) : State :=
  { u with timewaits := Function.update u.timewaits t (f (u.timewaits t)) }

def note (e : LogEntry) (u : State) : State := { u with log := e :: u.log }

def check (a : Site) (p : Prop) [Decidable p] (u : State) : State :=
  if p then u else u.note (.failed a)

def push (f : Frame) (u : State) : State := { u with stack := f :: u.stack }

/-- The ids of the streams. -/
def localId (u : State) (s : ℕ) : SeqNo := (u.streams s).localId

/-- The head of the streams of a socket, or of no socket. -/
def head (u : State) : Option ℕ → Option ℕ
  | none => u.freeStreams
  | some k => (u.sockets k).streams

def setHead (socket h : Option ℕ) (u : State) : State :=
  match socket with
  | none => { u with freeStreams := h }
  | some k => u.setSocket k fun x => { x with streams := h }

theorem setStream_self (s : ℕ) (f : Stream → Stream) (u : State) :
    (u.setStream s f).streams s = f (u.streams s) := Function.update_self ..

end State

open State

theorem setHead_log (socket h : Option ℕ) (u : State) : (u.setHead socket h).log = u.log := by
  cases socket <;> rfl

/-! ### Lists of streams -/

/-- `udx__link_add`. -/
def linkStream (socket : Option ℕ) (s : ℕ) (u : State) : State :=
  setHead socket (some s) { u with streamLink := u.streamLink.add (u.head socket) s }

/-- `udx__link_remove`. -/
def unlinkStream (socket : Option ℕ) (s : ℕ) (u : State) : State :=
  let r := u.streamLink.remove (u.head socket) s
  setHead socket r.2 { u with streamLink := r.1 }

/-- `set_stream_socket`. -/
def setStreamSocket (s k : ℕ) (u : State) : State :=
  if (u.streams s).socket = some k then u
  else
    let u := unlinkStream (u.streams s).socket s u
    linkStream (some k) s (u.setStream s fun x => { x with socket := some k })

/-! ### The stream table and TIME-WAIT -/

def entrySet (id : SeqNo) (e : Entry) (u : State) : State :=
  { u with streamTable := u.streamTable.set id e }

def entryRemove (id : SeqNo) (u : State) : State :=
  { u with streamTable := u.streamTable.remove id }

/-- The timer of a TIME-WAIT entry is closed, and the entry leaves the queue of
its socket. -/
def dropTimewait (t : ℕ) (u : State) : State :=
  (u.setTimewait t fun x => { x with armed := false }).setSocket (u.timewaits t).socket fun x =>
    { x with timewaitQueue := x.timewaitQueue.erase t }

/-- `timewait_timeout`. -/
def timewaitTimeout (t : ℕ) (u : State) : State :=
  let id := (u.timewaits t).localId
  let u := u.check .timewaitEntry (u.streamTable.get id = some (.timewait t))
  dropTimewait t (entryRemove id u)

/-- `stream_timewait`. -/
def streamTimewait (s k : ℕ) (u : State) : State :=
  let t := u.ntimewaits
  let id := u.localId s
  let u := { u with ntimewaits := t + 1 }.setTimewait t fun _ =>
    { localId := id, socket := k, armed := true }
  (entrySet id (.timewait t) u).setSocket k fun x =>
    { x with timewaitQueue := x.timewaitQueue ++ [t] }

/-- `udx_stream_init`. -/
def streamInit (id : SeqNo) (u : State) : State :=
  if u.teardown then u
  else
    let s := u.nstreams
    let u := { u with nstreams := s + 1 }.setStream s fun _ => { localId := id }
    let u := linkStream none s u
    let old := u.streamTable.get id
    let u := entrySet id (.stream s) u
    match old with
    | some (.timewait t) => dropTimewait t u
    | _ => u

/-! ### Closing -/

/-- The entry of a stream that closes goes, or is replaced by its TIME-WAIT. -/
def closeEntry (s : ℕ) (u : State) : State :=
  let x := u.streams s
  match x.timewaitWanted, x.socket with
  | true, some k => streamTimewait s k u
  | _, _ => entryRemove x.localId u

theorem closeEntry_log (s : ℕ) (u : State) : (closeEntry s u).log = u.log := by
  unfold closeEntry
  dsimp only
  split <;> rfl

/-- A stream that relays to `s` and is in the callbacks of its own close, or the
one that `s` relays to, if that is closed. -/
def clearingRelay (s : ℕ) (u : State) : Option ℕ :=
  (u.stack.findSome? fun
    | .clearing c => if (u.streams c).relayTo = some s then some c else none
    | _ => none).or ((u.streams s).relayTo.filter fun d => (u.streams d).closed)

/-- The stream becomes CLOSED. -/
def markClosed (s : ℕ) (u : State) : State :=
  (u.setStream s fun x => { x with closed := true, connected := false }).note
    (.streamClosed s (u.streamTable.get (u.localId s)) (clearingRelay s u))

/-- `close_stream_internal` up to its callbacks. -/
def closeStreamInternal (s : ℕ) (u : State) : State :=
  let u := markClosed s (u.check .closeTwice ((u.streams s).closed = false))
  let u := closeEntry s (unlinkStream (u.streams s).socket s u)
  (u.push (.clearing s)).push .user

/-- `close_stream`; `err` tells whether it is called with an error. -/
def closeStream (s : ℕ) (err : Bool) (u : State) : State :=
  let u := if err then u.setStream s fun x => { x with timewaitWanted := false } else u
  if (u.streams s).destroying then u else closeStreamInternal s u

/-- `udx_stream_destroy`; `queued` tells whether libuv queues the destroy
packet. -/
def streamDestroy (s : ℕ) (queued : Bool) (u : State) : State :=
  if (u.streams s).closed || (u.streams s).destroying then u
  else
    let u := u.setStream s fun x => { x with timewaitWanted := false }
    if !(u.streams s).connected then closeStream s false u
    else
      let u := u.setStream s fun x => { x with destroying := true }
      if (u.streams s).relayed then closeStreamInternal s u
      else if queued then u.setStream s fun x => { x with destroyQueued := true }
      else closeStreamInternal s u

/-- A stream that ends, times out or is reset closes, unless it is being
destroyed. -/
theorem closeStream_cases (s : ℕ) (err : Bool) (u : State) : ∃ w,
    (u.streams s).destroying = true ∧
      closeStream s err u = u.setStream s (fun x => { x with timewaitWanted := w }) ∨
    (u.streams s).destroying = false ∧
      closeStream s err u =
        closeStreamInternal s (u.setStream s fun x => { x with timewaitWanted := w }) := by
  have hid : u.setStream s (fun x => { x with timewaitWanted := (u.streams s).timewaitWanted }) = u := by
    unfold State.setStream
    simp
  unfold closeStream
  cases err with
  | false =>
    refine ⟨(u.streams s).timewaitWanted, ?_⟩
    rw [hid]
    cases hd : (u.streams s).destroying <;> simp [hd]
  | true =>
    refine ⟨false, ?_⟩
    cases hd : (u.streams s).destroying <;> simp [setStream_self, hd]

/-- What `udx_stream_destroy` does: nothing to a stream that is closed or being
destroyed; another closes, or libuv takes its destroy packet. -/
theorem streamDestroy_cases (s : ℕ) (queued : Bool) (u : State) :
    ((u.streams s).closed = true ∨ (u.streams s).destroying = true) ∧
      streamDestroy s queued u = u ∨
    ((u.streams s).closed = false ∧ (u.streams s).destroying = false) ∧
      ((∃ d, streamDestroy s queued u = closeStreamInternal s (u.setStream s fun x =>
          { x with destroying := d, timewaitWanted := false })) ∨
        streamDestroy s queued u = u.setStream s fun x =>
          { x with destroying := true, timewaitWanted := false, destroyQueued := true }) := by
  have htwice : ∀ f g : Stream → Stream, (u.setStream s f).setStream s g = u.setStream s (g ∘ f) := by
    intro f g
    unfold State.setStream
    simp
  unfold streamDestroy
  split
  · next h =>
    rw [Bool.or_eq_true] at h
    exact .inl ⟨h, rfl⟩
  · next h =>
    rw [Bool.or_eq_true, not_or, Bool.not_eq_true, Bool.not_eq_true] at h
    refine .inr ⟨h, ?_⟩
    dsimp only
    split
    · refine .inl ⟨false, ?_⟩
      unfold closeStream
      simp only [setStream_self, h.2, Bool.false_eq_true, if_false]
      congr 1
      unfold State.setStream
      simp [← h.2]
    · split_ifs
      · exact .inl ⟨true, by rw [htwice]; rfl⟩
      · exact .inr (by rw [htwice, htwice]; rfl)
      · exact .inl ⟨true, by rw [htwice]; rfl⟩

/-- The completion of the destroy packet. -/
def destroySent (s : ℕ) (u : State) : State :=
  closeStreamInternal s (u.setStream s fun x => { x with destroyQueued := false })

/-- A close of socket `k`, or of a stream of it, that is not over. -/
def closeInside (k : ℕ) (u : State) : Option Frame :=
  u.stack.find? fun
    | .closingSocket k' => k' = k
    | .clearing s | .relaying s _ => (u.streams s).socket = some k
    | _ => false

/-- `udx_socket_close` up to its callbacks. -/
def socketClose (k : ℕ) (u : State) : State :=
  if (u.sockets k).streams ≠ none then u
  else
    let u := (u.setSocket k fun x => { x with closed := true }).note
      (.socketClosed k (closeInside k u))
    let u := (u.sockets k).timewaitQueue.foldl (fun u t => timewaitTimeout t u) u
    (u.push (.closingSocket k)).push .user

/-- `udx_stream_relay_to`. -/
def streamRelayTo (s d : ℕ) (u : State) : State :=
  if (u.streams s).relayed || (u.streams d).closed then u
  else
    let u := u.note (.relayTo s d (u.streams s) (u.streams d) u.localId)
    let u := u.setStream s fun x => { x with relayed := true, relayTo := some d }
    u.setStream d fun x => { x with relaying := x.relaying.set u.localId s }

/-- `close_stream_internal`: the link to the relay. -/
def unlinkRelay (s : ℕ) (u : State) : State :=
  match (u.streams s).relayTo with
  | none => u
  | some d =>
    let u := u.check .relayTarget ((u.streams d).closed = false ∨ d = s)
    (u.check .relayBuffer ((u.streams d).relaying.live = true)).setStream d fun x =>
      { x with relaying := x.relaying.remove u.localId (u.localId s) }

/-- One turn of the loop of `close_stream_internal`. -/
def destroyRelaying (c : ℕ) (queued : Bool) (u : State) : State :=
  let u := u.check .relayClosed ((u.streams c).closed = false)
  streamDestroy c queued (u.setStream c fun x => { x with relayTo := none })

/-- The end of `close_stream_internal`. -/
def closeEnd (s : ℕ) (u : State) : State :=
  let u := u.setStream s fun x => { x with relaying := x.relaying.destroy }
  match (u.streams s).socket with
  | some k => if u.teardown = true ∧ (u.sockets k).streams = none then socketClose k u else u
  | none => u

/-! ### The machine -/

/-- Go on with a frame that was on top of the stack. -/
def resume (queued : Bool) : Frame → State → State
  | .user, u => u
  | .clearing s, u => (unlinkRelay s u).push (.relaying s 0)
  | .relaying s i, u =>
    if i < (u.streams s).relaying.size then
      let u' := u.push (.relaying s (i + 1))
      match (u.streams s).relaying.values i with
      | none => u'
      | some c => destroyRelaying c queued u'
    else closeEnd s u
  | .closingSocket k, u =>
    let r := u.socketLink.remove u.socketList k
    { u with socketLink := r.1, socketList := r.2 }
  | .walkSockets none, u => u
  | .walkSockets (some k), u =>
    let u := u.push (.nextSocket k)
    if (u.sockets k).streams = none then socketClose k u
    else u.push (.walkStreams (some k) (u.sockets k).streams)
  | .nextSocket k, u => u.push (.walkSockets (u.socketLink.next k))
  | .walkStreams _ none, u => u
  | .walkStreams k (some s), u => streamDestroy s queued (u.push (.nextStream k s))
  | .nextStream k s, u => u.push (.walkStreams k (u.streamLink.next s))
  | .walkFree, u => u.push (.walkStreams none u.freeStreams)

/-- `udx_socket_init`. -/
def socketInit (u : State) : State :=
  if u.teardown then u
  else
    { u with
      nsockets := u.nsockets + 1
      sockets := Function.update u.sockets u.nsockets {}
      socketLink := u.socketLink.add u.socketList u.nsockets
      socketList := some u.nsockets }

/-- `udx_teardown`. -/
def teardown (u : State) : State :=
  ({ u with teardown := true }.push .walkFree).push (.walkSockets u.socketList)

/-- `udx_stream_connect`. -/
def streamConnect (s k : ℕ) (u : State) : State :=
  if (u.streams s).destroying || (u.streams s).closed || u.teardown then u
  else if (u.streams s).connected then u
  else setStreamSocket s k (u.setStream s fun x => { x with connected := true })

/-- `udx_stream_change_remote`; `ok` tells whether it takes the address. -/
def streamChangeRemote (s k : ℕ) (ok : Bool) (u : State) : State :=
  if (u.streams s).destroying || (u.streams s).closed || u.teardown then u
  else if !(u.streams s).connected then u
  else if ok then setStreamSocket s k u else u

/-- `udx_stream_write_end`; `wanted` tells whether the remote has not ended. -/
def streamWriteEnd (s : ℕ) (wanted : Bool) (u : State) : State :=
  if (u.streams s).connected then
    u.setStream s fun x => { x with timewaitWanted := x.timewaitWanted || wanted }
  else u

/-- The API calls. -/
inductive Call
  | socketInit
  | streamInit (id : SeqNo)
  | connect (s k : ℕ)
  | changeRemote (s k : ℕ) (ok : Bool)
  | writeEnd (s : ℕ) (wanted : Bool)
  | relayTo (s d : ℕ)
  | destroy (s : ℕ) (queued : Bool)
  | teardown

/-- The handles a call is given are those of open sockets and of streams. -/
def Call.valid (u : State) : Call → Prop
  | .connect s k | .changeRemote s k _ => s < u.nstreams ∧ k < u.nsockets ∧ (u.sockets k).closed = false
  | .writeEnd s _ | .destroy s _ => s < u.nstreams
  | .relayTo s d => s < u.nstreams ∧ d < u.nstreams
  | _ => True

def runCall : Call → State → State
  | .socketInit, u => socketInit u
  | .streamInit id, u => streamInit id u
  | .connect s k, u => streamConnect s k u
  | .changeRemote s k ok, u => streamChangeRemote s k ok u
  | .writeEnd s wanted, u => streamWriteEnd s wanted u
  | .relayTo s d, u => streamRelayTo s d u
  | .destroy s queued, u => streamDestroy s queued u
  | .teardown, u => teardown u

/-- What the event loop does: a stream ends, times out or is reset, its
destroy packet is sent, a TIME-WAIT expires, the program closes a socket. -/
inductive Event
  | closeStream (s : ℕ) (err : Bool)
  | destroySent (s : ℕ)
  | timewaitTimeout (t : ℕ)
  | socketClose (k : ℕ)

/-- An event can happen. -/
def Event.enabled (u : State) : Event → Prop
  | .closeStream s _ => s < u.nstreams ∧ (u.streams s).closed = false
  | .destroySent s => s < u.nstreams ∧ (u.streams s).destroyQueued = true
  | .timewaitTimeout t => (u.timewaits t).armed = true
  | .socketClose k => k < u.nsockets ∧ (u.sockets k).closed = false

def runEvent : Event → State → State
  | .closeStream s err, u => closeStream s err u
  | .destroySent s, u => destroySent s u
  | .timewaitTimeout t, u => timewaitTimeout t u
  | .socketClose k, u => socketClose k u

/-- The program or one of its callbacks is running. -/
def State.atUser (u : State) : Prop := u.stack = [] ∨ ∃ rest, u.stack = .user :: rest

/-- One step: an API call, a callback that returns, an event, or a function
that goes on. -/
inductive Step (u : State) : State → Prop
  | call (c : Call) (hu : u.atUser) (hc : c.valid u) : Step u (runCall c u)
  | returned {rest : List Frame} (hu : u.stack = .user :: rest) : Step u { u with stack := rest }
  | event (e : Event) (hu : u.stack = []) (he : e.enabled u) : Step u (runEvent e u)
  | resume {f : Frame} {rest : List Frame} (queued : Bool) (hu : u.stack = f :: rest)
    (hf : f ≠ .user) : Step u (resume queued f { u with stack := rest })

/-- The reachable states. -/
inductive Reach : State → Prop
  | init : Reach {}
  | step {u u' : State} : Reach u → Step u u' → Reach u'

/-- The program returns from its callback, or the frame on top goes on. -/
def proceed (u : State) : State :=
  match u.stack with
  | [] => u
  | f :: rest => if f = .user then { u with stack := rest } else resume false f { u with stack := rest }

theorem Reach.proceed {u : State} (h : Reach u) (n : ℕ) : Reach (proceed^[n] u) := by
  induction n generalizing u with
  | zero => exact h
  | succ n ih =>
    rw [Function.iterate_succ_apply]
    refine ih ?_
    unfold Registry.proceed
    split
    · exact h
    · next f rest hu =>
      split
      · next hf => exact .step h (.returned (hf ▸ hu))
      · next hf => exact .step h (.resume false hu hf)

end Udx.Registry
