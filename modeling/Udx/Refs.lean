/-
# What keeps a `udx_t` busy (udx.c)

`udx->refs` counts sockets, streams, lookups and interface listeners. Each is
counted when it is made and given up in the close callbacks of its libuv
handles, after the user's callback for it; `on_idle` is called when the last
one is gone.

The user's callbacks make calls of their own, so the model is a machine with
a stack of the callbacks that have not returned. What makes a stream close is
outside this model: that it closes is a step that may come at any time, and
so may every call. The walks of `udx_teardown` are such steps.

Key definitions: `State`, `refDec`, `runCall`, `step`, `Reach`, `State.total`,
`Accounted`.
Key theorems: `Sound.step`, `Reach.accounted`.
-/
import Udx.Wire
import Mathlib.Logic.Relation

namespace Udx.Refs

/-! ### State -/

/-- `udx_socket_t`. -/
structure Socket where
  nrefs : ℤ := 3
  /-- libuv: how many handles are not closed yet, after `uv_close`. -/
  uv : Option ℕ := none
  deriving DecidableEq

/-- `udx_stream_t`. -/
structure Stream where
  closed : Bool := false
  socket : Option ℕ := none
  nrefs : ℤ := 3
  /-- libuv: how many handles are not closed yet, after `uv_close`. -/
  uv : Option ℕ := none
  deriving DecidableEq

/-- `udx_interface_event_t`. -/
structure Listener where
  closing : Bool := false
  /-- libuv: its timer is closed. -/
  closed : Bool := false
  deriving DecidableEq

/-- What runs when a callback of the user returns: the end of a close callback
of libuv, nothing after `on_idle`, the end of `close_stream_internal`. -/
inductive Frame
  | socketClosed | finalized | lookedUp | listenerClosed
  | idle
  | closeHandles (j : ℕ)
  deriving DecidableEq

inductive Call
  | socketInit
  | socketClose (i : ℕ)
  | streamInit
  /-- `udx_stream_connect` and `udx_stream_change_remote`. -/
  | connect (j i : ℕ)
  /-- `ok`: what `uv_getaddrinfo` returns. -/
  | lookup (ok : Bool)
  /-- What `uv_interface_addresses` and `uv_timer_init` return. -/
  | listenerInit (addrsOk timerOk : Bool)
  | listenerClose (e : ℕ)
  | teardown
  deriving DecidableEq

inductive Entry
  /-- Something is gone, and so much is left. -/
  | gone (rest : ℕ)
  /-- `on_idle` is called. -/
  | idle
  /-- `uv_getaddrinfo` returned an error. -/
  | getaddrinfoFailed
  /-- A call returned, with an error or not, and `refs` before and after. -/
  | result (c : Call) (ok : Bool) (before after : ℤ)
  deriving DecidableEq

/-- `udx_t`. -/
structure State where
  teardown : Bool := false
  refs : ℤ := 0
  /-- `on_idle != NULL`. -/
  onIdle : Bool := true
  sockets : List Socket := []
  streams : List Stream := []
  /-- libuv: the lookups whose callback is due. -/
  lookups : ℕ := 0
  listeners : List Listener := []
  stack : List Frame := []
  /-- Newest first. -/
  log : List Entry := []
  deriving DecidableEq

/-- The callback is the last of an object, which is counted until it returns. -/
def Frame.counted : Frame → Bool
  | .socketClosed | .finalized | .lookedUp | .listenerClosed => true
  | .idle | .closeHandles _ => false

def Socket.counted (x : Socket) : Bool := decide (0 < x.nrefs)
def Stream.counted (x : Stream) : Bool := decide (0 < x.nrefs)
def Listener.counted (x : Listener) : Bool := !x.closed

namespace State

/-- Sockets that are not fully closed, streams that are not finalized, lookups
whose callback is due or runs, and listeners that are not closed. -/
def total (s : State) : ℕ :=
  s.sockets.countP Socket.counted + s.streams.countP Stream.counted + s.lookups +
    s.listeners.countP Listener.counted + s.stack.countP Frame.counted

def note (e : Entry) (s : State) : State := { s with log := e :: s.log }

/-- A callback of the user is called, with what runs when it returns. -/
def push (f : Frame) (s : State) : State := { s with stack := f :: s.stack }

end State

/-! ### The reference count -/

/-- `ref_dec`. -/
def refDec (s : State) : State :=
  let s := { s with refs := s.refs - 1 }
  let s := s.note (.gone s.total)
  if s.refs ≠ 0 then s
  else if s.onIdle then (s.note .idle).push .idle
  else s

/-- `on_udx_socket_handle_close`. -/
def onSocketHandleClose (i : ℕ) (x : Socket) (left : ℕ) (s : State) : State :=
  let nrefs := x.nrefs - 1
  let s := { s with sockets := s.sockets.set i { x with nrefs := nrefs, uv := some left } }
  if nrefs = 0 then s.push .socketClosed else s

/-- `finalize_maybe`. -/
def finalizeMaybe (j : ℕ) (x : Stream) (left : ℕ) (s : State) : State :=
  let nrefs := x.nrefs - 1
  let s := { s with streams := s.streams.set j { x with nrefs := nrefs, uv := some left } }
  if nrefs > 0 then s else s.push .finalized

/-! ### Calls -/

/-- What a call leaves, and whether it succeeded; none where libuv aborts or
there is no such object. -/
abbrev Outcome := Option (State × Bool)

def socketInit (s : State) : Outcome :=
  if s.teardown then some (s, false)
  else some ({ s with refs := s.refs + 1, sockets := s.sockets ++ [{}] }, true)

/-- `socket->streams != NULL`. -/
def State.inUse (s : State) (i : ℕ) : Bool :=
  s.streams.any fun x => !x.closed && decide (x.socket = some i)

/-- libuv asserts that a handle is closed once. -/
def socketClose (i : ℕ) (s : State) : Outcome :=
  match s.sockets[i]? with
  | none => none
  | some x =>
    if s.inUse i then some (s, false)
    else if x.uv.isSome then none
    else some ({ s with sockets := s.sockets.set i { x with uv := some 3 } }, true)

def streamInit (s : State) : Outcome :=
  if s.teardown then some (s, false)
  else some ({ s with refs := s.refs + 1, streams := s.streams ++ [{}] }, true)

/-- `set_stream_socket`, where the calls come to it. -/
def connect (j i : ℕ) (s : State) : Outcome :=
  match s.streams[j]? with
  | none => none
  | some x =>
    if x.closed || s.teardown then some (s, false)
    else some ({ s with streams := s.streams.set j { x with socket := some i } }, true)

def lookup (ok : Bool) (s : State) : Outcome :=
  if s.teardown then some (s, false)
  else
    let s := { s with refs := s.refs + 1 }
    if ok then some ({ s with lookups := s.lookups + 1 }, true)
    else some (s.note .getaddrinfoFailed, false)

def interfaceEventInit (addrsOk timerOk : Bool) (s : State) : Outcome :=
  if s.teardown then some (s, false)
  else if !addrsOk then some (s, false)
  else if !timerOk then some (s, false)
  else some ({ s with refs := s.refs + 1, listeners := s.listeners ++ [{}] }, true)

/-- `uv_timer_stop` always succeeds. -/
def interfaceEventClose (e : ℕ) (s : State) : Outcome :=
  match s.listeners[e]? with
  | none => none
  | some x =>
    if x.closing then some (s, false)
    else some ({ s with listeners := s.listeners.set e { x with closing := true } }, true)

def runCall : Call → State → Outcome
  | .socketInit, s => socketInit s
  | .socketClose i, s => socketClose i s
  | .streamInit, s => streamInit s
  | .connect j i, s => connect j i s
  | .lookup ok, s => lookup ok s
  | .listenerInit addrsOk timerOk, s => interfaceEventInit addrsOk timerOk s
  | .listenerClose e, s => interfaceEventClose e s
  | .teardown, s => some ({ s with teardown := true }, true)

/-! ### Steps -/

/-- `close_stream_internal`, up to its callbacks. -/
def closeStreamStart (j : ℕ) (s : State) : Option State :=
  match s.streams[j]? with
  | none => none
  | some x =>
    if x.closed then none
    else some ({ s with streams := s.streams.set j { x with closed := true } }.push (.closeHandles j))

/-- The end of `close_stream_internal`. The last stream of a socket that is
torn down closes it. -/
def closeHandles (j : ℕ) (s : State) : Option State :=
  match s.streams[j]? with
  | none => none
  | some x =>
    if x.uv.isSome then none
    else
      let s := { s with streams := s.streams.set j { x with uv := some 3 } }
      match x.socket with
      | none => some s
      | some i => if s.teardown && !s.inUse i then (socketClose i s).map Prod.fst else some s

/-- A callback of the user returns. -/
def resume : Frame → State → Option State
  | .idle, s => some s
  | .closeHandles j, s => closeHandles j s
  | .socketClosed, s | .finalized, s | .lookedUp, s | .listenerClosed, s => some (refDec s)

inductive Action
  | call (c : Call)
  /-- A stream closes. -/
  | streamClose (j : ℕ)
  /-- The callback on top of the stack returns. -/
  | ret
  /-- libuv has closed a handle, looked a name up. -/
  | socketHandle (i : ℕ)
  | streamHandle (j : ℕ)
  | lookupDone
  | listenerTimer (e : ℕ)
  deriving DecidableEq

/-- The close callbacks of libuv, which run when no other callback does. -/
def uvCallback : Action → State → Option State
  | .socketHandle i, s =>
    match s.sockets[i]? with
    | some ⟨nrefs, some (left + 1)⟩ =>
      some (onSocketHandleClose i ⟨nrefs, some (left + 1)⟩ left s)
    | _ => none
  | .streamHandle j, s =>
    match s.streams[j]? with
    | some ⟨closed, socket, nrefs, some (left + 1)⟩ =>
      some (finalizeMaybe j ⟨closed, socket, nrefs, some (left + 1)⟩ left s)
    | _ => none
  | .lookupDone, s =>
    if s.lookups = 0 then none
    else some ({ s with lookups := s.lookups - 1 }.push .lookedUp)
  | .listenerTimer e, s =>
    match s.listeners[e]? with
    | some ⟨true, false⟩ =>
      some ({ s with listeners := s.listeners.set e ⟨true, true⟩ }.push .listenerClosed)
    | _ => none
  | _, _ => none

def step (s : State) : Action → Option State
  | .call c => (runCall c s).map fun r => r.1.note (.result c r.2 s.refs r.1.refs)
  | .streamClose j => closeStreamStart j s
  | .ret =>
    match s.stack with
    | [] => none
    | f :: rest => resume f { s with stack := rest }
  | a => if s.stack = [] then uvCallback a s else none

/-- Any order of calls and callbacks, from `udx_init` on. -/
inductive Reach (onIdle : Bool) : State → Prop
  | init : Reach onIdle { onIdle := onIdle }
  | step {s t : State} (a : Action) (h : Reach onIdle s) (ht : step s a = some t) : Reach onIdle t

/-! ### The count is right -/

/-- `on_idle` is called exactly when something goes and nothing is left. -/
def IdleLog (onIdle : Bool) : List Entry → Prop
  | [] => True
  | .idle :: .gone 0 :: log => onIdle = true ∧ IdleLog onIdle log
  | .idle :: _ => False
  | .gone 0 :: log => onIdle = false ∧ IdleLog onIdle log
  | _ :: log => IdleLog onIdle log

/-- `refs` is the number of what is alive, `on_idle` is called when the last
of it is gone, and calls that fail leave `refs` alone. -/
structure Accounted (s : State) : Prop where
  refs : s.refs = s.total
  idle : IdleLog s.onIdle s.log
  fails : ∀ c before after, .result c false before after ∈ s.log → after = before

/-- The handles of a socket or stream that are not closed yet are those it
counts. -/
structure Sound (s : State) : Prop extends Accounted s where
  sockets : ∀ x ∈ s.sockets, x.nrefs = (x.uv.getD 3 : ℕ)
  streams : ∀ x ∈ s.streams, x.nrefs = (x.uv.getD 3 : ℕ)

section

variable {α : Type} (p : α → Bool)

/-- Exchanging an element exchanges what it counts. -/
theorem countP_set {l : List α} {i : ℕ} {x : α} (h : l[i]? = some x) (y : α) :
    (l.set i y).countP p + (if p x then 1 else 0) = l.countP p + (if p y then 1 else 0) := by
  induction l generalizing i with
  | nil => cases h
  | cons z l ih =>
    cases i with
    | zero =>
      obtain rfl : z = x := Option.some.inj h
      simp only [List.set_cons_zero, List.countP_cons]
      omega
    | succ i =>
      have hi := ih (i := i) h
      simp only [List.set_cons_succ, List.countP_cons]
      omega

theorem countP_set_same {l : List α} {i : ℕ} {x y : α} (h : l[i]? = some x) (hp : p y = p x) :
    (l.set i y).countP p = l.countP p := by
  have hset := countP_set p h y
  rw [hp] at hset
  omega

end

theorem IdleLog.cons {onIdle : Bool} {log : List Entry} (h : IdleLog onIdle log) {e : Entry}
    (hi : e ≠ .idle) (hg : e ≠ .gone 0) : IdleLog onIdle (e :: log) := by
  cases e with
  | gone rest =>
    cases rest with
    | zero => exact absurd rfl hg
    | succ n => exact h
  | idle => exact absurd rfl hi
  | getaddrinfoFailed => exact h
  | result => exact h

namespace Sound

variable {s t : State}

/-- A step that logs nothing and keeps the count. -/
theorem congr (h : Sound s) (hsock : ∀ x ∈ t.sockets, x.nrefs = (x.uv.getD 3 : ℕ))
    (hstr : ∀ x ∈ t.streams, x.nrefs = (x.uv.getD 3 : ℕ)) (hrefs : t.refs - s.refs = t.total - s.total)
    (hon : t.onIdle = s.onIdle) (hlog : t.log = s.log) : Sound t := by
  have hs := h.refs
  refine ⟨⟨by omega, ?_, ?_⟩, hsock, hstr⟩
  · rw [hon, hlog]
    exact h.idle
  · rw [hlog]
    exact h.fails

/-- One more entry that says nothing of what is gone. -/
theorem note (h : Sound s) {e : Entry} (hi : e ≠ .idle) (hg : e ≠ .gone 0)
    (hf : ∀ c before after, e = .result c false before after → after = before) : Sound (s.note e) := by
  refine ⟨⟨h.refs, h.idle.cons hi hg, fun c before after hm => ?_⟩, h.sockets, h.streams⟩
  rcases List.mem_cons.mp hm with heq | hm
  · exact hf c before after heq.symm
  · exact h.fails c before after hm

/-- Giving up what is counted once too often. -/
theorem refDec (hidle : IdleLog s.onIdle s.log)
    (hfails : ∀ c before after, .result c false before after ∈ s.log → after = before)
    (hsock : ∀ x ∈ s.sockets, x.nrefs = (x.uv.getD 3 : ℕ))
    (hstr : ∀ x ∈ s.streams, x.nrefs = (x.uv.getD 3 : ℕ)) (hrefs : s.refs - 1 = s.total) :
    Sound (refDec s) := by
  have hgone : ∀ c before after,
      .result c false before after ∈ Entry.gone s.total :: s.log → after = before := by
    intro c before after hm
    exact hfails c before after ((List.mem_cons.mp hm).resolve_left (by simp))
  have htotal : ({ s with refs := s.refs - 1 } : State).total = s.total := rfl
  unfold Refs.refDec State.note
  dsimp only
  rw [htotal, hrefs]
  split
  · next hne =>
    have hne' : Entry.gone s.total ≠ .gone 0 := fun heq => hne (by rw [Entry.gone.inj heq]; rfl)
    exact ⟨⟨rfl, hidle.cons (by simp) hne', hgone⟩, hsock, hstr⟩
  · next hz =>
    have hzero : s.total = 0 := by omega
    rw [hzero] at hgone ⊢
    split
    · next hon =>
      refine ⟨⟨hzero ▸ rfl, ⟨hon, hidle⟩, fun c before after hm => ?_⟩, hsock, hstr⟩
      exact hgone c before after ((List.mem_cons.mp hm).resolve_left (by simp))
    · next hon => exact ⟨⟨hzero ▸ rfl, ⟨Bool.eq_false_iff.mpr hon, hidle⟩, hgone⟩, hsock, hstr⟩

/-- The return of the last callback of an object. -/
theorem returned {f : Frame} {rest : List Frame} (h : Sound s) (hs : s.stack = f :: rest)
    (hf : f.counted = true) : Sound (Refs.refDec { s with stack := rest }) := by
  refine refDec h.idle h.fails h.sockets h.streams ?_
  have hrefs := h.refs
  unfold State.total at hrefs ⊢
  simp only [hs, List.countP_cons, hf, if_true] at hrefs
  dsimp only
  omega

/-- A socket whose `nrefs` stays is exchanged. -/
theorem setSocket (h : Sound s) {i : ℕ} {x y : Socket} (hx : s.sockets[i]? = some x)
    (hn : y.nrefs = x.nrefs) (hy : y.nrefs = (y.uv.getD 3 : ℕ)) :
    Sound { s with sockets := s.sockets.set i y } := by
  have hcount := countP_set_same Socket.counted (y := y) hx (by rw [Socket.counted, Socket.counted, hn])
  refine h.congr (fun z hz => ?_) h.streams ?_ rfl rfl
  · rcases List.mem_or_eq_of_mem_set hz with hz | rfl
    · exact h.sockets z hz
    · exact hy
  · unfold State.total
    dsimp only
    rw [hcount]
    omega

theorem setStream (h : Sound s) {j : ℕ} {x y : Stream} (hx : s.streams[j]? = some x)
    (hn : y.nrefs = x.nrefs) (hy : y.nrefs = (y.uv.getD 3 : ℕ)) :
    Sound { s with streams := s.streams.set j y } := by
  have hcount := countP_set_same Stream.counted (y := y) hx (by rw [Stream.counted, Stream.counted, hn])
  refine h.congr h.sockets (fun z hz => ?_) ?_ rfl rfl
  · rcases List.mem_or_eq_of_mem_set hz with hz | rfl
    · exact h.streams z hz
    · exact hy
  · unfold State.total
    dsimp only
    rw [hcount]
    omega

theorem push (h : Sound s) {f : Frame} (hf : f.counted = false) : Sound (s.push f) := by
  refine h.congr h.sockets h.streams ?_ rfl rfl
  unfold State.total State.push
  simp only [List.countP_cons, hf, Bool.false_eq_true, if_false]
  omega

/-- The handles of a socket or stream that is open are not counted down yet. -/
theorem socket_open (h : Sound s) {i : ℕ} {x : Socket} (hx : s.sockets[i]? = some x)
    (hu : x.uv.isSome = false) : x.nrefs = 3 := by
  have hn := h.sockets x (List.mem_of_getElem? hx)
  rw [Option.isSome_eq_false_iff, Option.isNone_iff_eq_none] at hu
  rw [hn, hu]
  rfl

theorem stream_open (h : Sound s) {j : ℕ} {x : Stream} (hx : s.streams[j]? = some x)
    (hu : x.uv.isSome = false) : x.nrefs = 3 := by
  have hn := h.streams x (List.mem_of_getElem? hx)
  rw [Option.isSome_eq_false_iff, Option.isNone_iff_eq_none] at hu
  rw [hn, hu]
  rfl

/-! ### Calls -/

/-- What a call that keeps the count gives: where it fails it changes nothing. -/
def Keeps (s : State) (r : State × Bool) : Prop := Sound r.1 ∧ r.1.log = s.log ∧ (r.2 = false → r.1 = s)

theorem socketClose (h : Sound s) {i : ℕ} {r : State × Bool} (hr : socketClose i s = some r) :
    Keeps s r := by
  unfold Refs.socketClose at hr
  split at hr
  · cases hr
  next x hx =>
  split at hr
  · obtain rfl := Option.some.inj hr
    exact ⟨h, rfl, fun _ => rfl⟩
  · split at hr
    · cases hr
    · next huv =>
      obtain rfl := Option.some.inj hr
      have hopen := h.socket_open hx (Bool.eq_false_iff.mpr huv)
      exact ⟨h.setSocket hx rfl hopen, rfl, nofun⟩

theorem interfaceEventClose (h : Sound s) {e : ℕ} {r : State × Bool}
    (hr : interfaceEventClose e s = some r) : Keeps s r := by
  unfold Refs.interfaceEventClose at hr
  split at hr
  · cases hr
  next x hx =>
  split at hr
  · obtain rfl := Option.some.inj hr
    exact ⟨h, rfl, fun _ => rfl⟩
  · obtain rfl := Option.some.inj hr
    have hcount := countP_set_same Listener.counted (y := { x with closing := true }) hx rfl
    refine ⟨h.congr h.sockets h.streams ?_ rfl rfl, rfl, nofun⟩
    unfold State.total
    dsimp only
    rw [hcount]
    omega

/-- A call keeps the count, unless it is a lookup that fails. -/
theorem runCall (h : Sound s) {c : Call} {r : State × Bool} (hr : runCall c s = some r)
    (hlook : .getaddrinfoFailed ∉ r.1.log) : Keeps s r := by
  have hgrow : ∀ u : State, u.refs = s.refs + 1 → u.total = s.total + 1 → u.onIdle = s.onIdle →
      u.log = s.log → (∀ x ∈ u.sockets, x.nrefs = (x.uv.getD 3 : ℕ)) →
      (∀ x ∈ u.streams, x.nrefs = (x.uv.getD 3 : ℕ)) → Keeps s (u, true) := by
    intro u hrefs htotal hon hlog hsock hstr
    exact ⟨h.congr hsock hstr (by dsimp only; omega) hon hlog, hlog, nofun⟩
  have hsame : Keeps s (s, false) := ⟨h, rfl, fun _ => rfl⟩
  cases c with
  | socketInit =>
    have hr : Refs.socketInit s = some r := hr
    unfold Refs.socketInit at hr
    split at hr
    · exact Option.some.inj hr ▸ hsame
    · obtain rfl := Option.some.inj hr
      refine hgrow _ rfl ?_ rfl rfl (fun x hx => ?_) h.streams
      · simp [State.total, List.countP_append, Socket.counted]
        omega
      · rcases List.mem_append.mp hx with hx | hx
        · exact h.sockets x hx
        · rw [List.mem_singleton.mp hx]
          rfl
  | socketClose i => exact h.socketClose hr
  | streamInit =>
    have hr : Refs.streamInit s = some r := hr
    unfold Refs.streamInit at hr
    split at hr
    · exact Option.some.inj hr ▸ hsame
    · obtain rfl := Option.some.inj hr
      refine hgrow _ rfl ?_ rfl rfl h.sockets (fun x hx => ?_)
      · simp [State.total, List.countP_append, Stream.counted]
        omega
      · rcases List.mem_append.mp hx with hx | hx
        · exact h.streams x hx
        · rw [List.mem_singleton.mp hx]
          rfl
  | connect j i =>
    have hr : Refs.connect j i s = some r := hr
    unfold Refs.connect at hr
    split at hr
    · cases hr
    next x hx =>
    split at hr
    · exact Option.some.inj hr ▸ hsame
    · obtain rfl := Option.some.inj hr
      exact ⟨h.setStream hx rfl (h.streams x (List.mem_of_getElem? hx)), rfl, nofun⟩
  | lookup ok =>
    have hr : Refs.lookup ok s = some r := hr
    unfold Refs.lookup at hr
    dsimp only at hr
    split at hr
    · exact Option.some.inj hr ▸ hsame
    · split at hr
      · obtain rfl := Option.some.inj hr
        refine hgrow _ rfl ?_ rfl rfl h.sockets h.streams
        unfold State.total
        dsimp only
        omega
      · obtain rfl := Option.some.inj hr
        exact absurd List.mem_cons_self hlook
  | listenerInit addrsOk timerOk =>
    have hr : interfaceEventInit addrsOk timerOk s = some r := hr
    unfold interfaceEventInit at hr
    split_ifs at hr
    · exact Option.some.inj hr ▸ hsame
    · exact Option.some.inj hr ▸ hsame
    · exact Option.some.inj hr ▸ hsame
    · obtain rfl := Option.some.inj hr
      refine hgrow _ rfl ?_ rfl rfl h.sockets h.streams
      simp [State.total, List.countP_append, Listener.counted]
      omega
  | listenerClose e => exact h.interfaceEventClose hr
  | teardown =>
    obtain rfl := Option.some.inj hr
    exact ⟨h.congr h.sockets h.streams (by simp [State.total]) rfl rfl, rfl, nofun⟩

/-! ### Steps -/

/-- A handle of a socket is closed; with the last one its callback takes over
what the socket counts for. -/
theorem onSocketHandleClose (h : Sound s) {i left : ℕ} {x : Socket} (hx : s.sockets[i]? = some x)
    (hu : x.uv = some (left + 1)) : Sound (onSocketHandleClose i x left s) := by
  have hn := h.sockets x (List.mem_of_getElem? hx)
  rw [hu, Option.getD_some] at hn
  have hcount := countP_set Socket.counted hx { x with nrefs := x.nrefs - 1, uv := some left }
  have hold : x.counted = true := by
    simp only [Socket.counted, decide_eq_true_eq]
    omega
  have hmem : ∀ z ∈ s.sockets.set i { x with nrefs := x.nrefs - 1, uv := some left },
      z.nrefs = (z.uv.getD 3 : ℕ) := by
    intro z hz
    rcases List.mem_or_eq_of_mem_set hz with hz | rfl
    · exact h.sockets z hz
    · simp only [Option.getD_some]
      omega
  unfold Refs.onSocketHandleClose
  dsimp only
  split
  · next hzero =>
    have hnew : Socket.counted { x with nrefs := x.nrefs - 1, uv := some left } = false := by
      simp [Socket.counted, hzero]
    refine h.congr hmem h.streams ?_ rfl rfl
    simp only [hold, hnew, if_true, Bool.false_eq_true, if_false] at hcount
    simp only [State.total, State.push, List.countP_cons, Frame.counted, if_true]
    omega
  · next hne =>
    have hnew : Socket.counted { x with nrefs := x.nrefs - 1, uv := some left } = true := by
      simp only [Socket.counted, decide_eq_true_eq]
      omega
    refine h.congr hmem h.streams ?_ rfl rfl
    simp only [hold, hnew, if_true] at hcount
    simp only [State.total]
    omega

theorem finalizeMaybe (h : Sound s) {j left : ℕ} {x : Stream} (hx : s.streams[j]? = some x)
    (hu : x.uv = some (left + 1)) : Sound (finalizeMaybe j x left s) := by
  have hn := h.streams x (List.mem_of_getElem? hx)
  rw [hu, Option.getD_some] at hn
  have hcount := countP_set Stream.counted hx { x with nrefs := x.nrefs - 1, uv := some left }
  have hold : x.counted = true := by
    simp only [Stream.counted, decide_eq_true_eq]
    omega
  have hmem : ∀ z ∈ s.streams.set j { x with nrefs := x.nrefs - 1, uv := some left },
      z.nrefs = (z.uv.getD 3 : ℕ) := by
    intro z hz
    rcases List.mem_or_eq_of_mem_set hz with hz | rfl
    · exact h.streams z hz
    · simp only [Option.getD_some]
      omega
  unfold Refs.finalizeMaybe
  dsimp only
  split
  · next hpos =>
    have hnew : Stream.counted { x with nrefs := x.nrefs - 1, uv := some left } = true := by
      simp only [Stream.counted, decide_eq_true_eq]
      exact hpos
    refine h.congr h.sockets hmem ?_ rfl rfl
    simp only [hold, hnew, if_true] at hcount
    simp only [State.total]
    omega
  · next hdone =>
    have hnew : Stream.counted { x with nrefs := x.nrefs - 1, uv := some left } = false := by
      simp only [Stream.counted, decide_eq_false_iff_not]
      exact hdone
    refine h.congr h.sockets hmem ?_ rfl rfl
    simp only [hold, hnew, if_true, Bool.false_eq_true, if_false] at hcount
    simp only [State.total, State.push, List.countP_cons, Frame.counted, if_true]
    omega

/-- One case for each callback of libuv. -/
theorem uvCallback (h : Sound s) {a : Action} (ht : uvCallback a s = some t) : Sound t := by
  cases a with
  | call | streamClose | ret => cases ht
  | socketHandle i =>
    simp only [Refs.uvCallback] at ht
    split at ht
    · next hx => exact Option.some.inj ht ▸ h.onSocketHandleClose hx rfl
    · cases ht
  | streamHandle j =>
    simp only [Refs.uvCallback] at ht
    split at ht
    · next hx => exact Option.some.inj ht ▸ h.finalizeMaybe hx rfl
    · cases ht
  | lookupDone =>
    simp only [Refs.uvCallback] at ht
    split at ht
    · cases ht
    · next hpos =>
      obtain rfl := Option.some.inj ht
      refine h.congr h.sockets h.streams ?_ rfl rfl
      simp only [State.total, State.push, List.countP_cons, Frame.counted, if_true]
      omega
  | listenerTimer e =>
    simp only [Refs.uvCallback] at ht
    split at ht
    · next hx =>
      obtain rfl := Option.some.inj ht
      have hcount := countP_set Listener.counted hx ⟨true, true⟩
      refine h.congr h.sockets h.streams ?_ rfl rfl
      simp only [Listener.counted, Bool.not_false, Bool.not_true, if_true, Bool.false_eq_true,
        if_false] at hcount
      simp only [State.total, State.push, List.countP_cons, Frame.counted, if_true]
      omega
    · cases ht

theorem closeHandles (h : Sound s) {j : ℕ} (ht : closeHandles j s = some t) : Sound t := by
  unfold Refs.closeHandles at ht
  split at ht
  · cases ht
  next x hx =>
  split at ht
  · cases ht
  next huv =>
  have hopen := h.stream_open hx (Bool.eq_false_iff.mpr huv)
  have hset := h.setStream hx (y := { x with uv := some 3 }) rfl hopen
  dsimp only at ht
  split at ht
  · exact Option.some.inj ht ▸ hset
  next i hi =>
  split at ht
  · obtain ⟨r, hr, rfl⟩ := Option.map_eq_some_iff.mp ht
    exact (hset.socketClose hr).1
  · exact Option.some.inj ht ▸ hset

/-- Every step keeps the count, unless it is a lookup that fails. -/
theorem step (h : Sound s) {a : Action} (ht : step s a = some t) (hlook : .getaddrinfoFailed ∉ t.log) :
    Sound t := by
  cases a with
  | call c =>
    obtain ⟨r, hr, rfl⟩ := Option.map_eq_some_iff.mp ht
    obtain ⟨hsound, -, hfail⟩ := h.runCall hr fun hm => hlook (List.mem_cons_of_mem _ hm)
    refine hsound.note (by simp) (by simp) fun c' before after heq => ?_
    obtain ⟨-, hok, rfl, rfl⟩ := Entry.result.inj heq
    rw [hfail hok]
  | streamClose j =>
    have ht : closeStreamStart j s = some t := ht
    unfold closeStreamStart at ht
    split at ht
    · cases ht
    next x hx =>
    split at ht
    · cases ht
    · obtain rfl := Option.some.inj ht
      exact (h.setStream hx (y := { x with closed := true }) rfl
        (h.streams x (List.mem_of_getElem? hx))).push rfl
  | ret =>
    have ht : (match s.stack with
      | [] => none
      | f :: rest => resume f { s with stack := rest }) = some t := ht
    split at ht
    · cases ht
    next f rest hs =>
    have hpop : f.counted = false → Sound { s with stack := rest } := by
      intro hf
      refine h.congr h.sockets h.streams ?_ rfl rfl
      simp only [State.total, hs, List.countP_cons, hf, Bool.false_eq_true, if_false]
      omega
    cases f with
    | idle => exact Option.some.inj ht ▸ hpop rfl
    | closeHandles j => exact (hpop rfl).closeHandles ht
    | socketClosed | finalized | lookedUp | listenerClosed =>
      exact Option.some.inj ht ▸ h.returned hs rfl
  | socketHandle | streamHandle | lookupDone | listenerTimer =>
    simp only [Refs.step] at ht
    split at ht
    · exact h.uvCallback ht
    · cases ht

end Sound

/-! ### Every run -/

theorem refDec_log (s : State) : s.log <:+ (refDec s).log := by
  unfold refDec
  dsimp only
  split
  · exact List.suffix_cons ..
  · split
    · exact (List.suffix_cons ..).trans (List.suffix_cons ..)
    · exact List.suffix_cons ..

theorem socketClose_log {i : ℕ} {s : State} {r : State × Bool} (hr : socketClose i s = some r) :
    r.1.log = s.log := by
  unfold socketClose at hr
  split at hr
  · cases hr
  · split_ifs at hr <;> exact Option.some.inj hr ▸ rfl

theorem runCall_log {c : Call} {s : State} {r : State × Bool} (hr : runCall c s = some r) :
    s.log <:+ r.1.log := by
  cases c with
  | socketClose i => exact (socketClose_log hr).symm ▸ List.suffix_rfl
  | teardown => exact Option.some.inj hr ▸ List.suffix_rfl
  | lookup ok =>
    have hr : lookup ok s = some r := hr
    unfold lookup State.note at hr
    dsimp only at hr
    split_ifs at hr
    · exact Option.some.inj hr ▸ List.suffix_rfl
    · exact Option.some.inj hr ▸ List.suffix_rfl
    · exact Option.some.inj hr ▸ List.suffix_cons ..
  | socketInit =>
    have hr : socketInit s = some r := hr
    unfold socketInit at hr
    split at hr <;> exact Option.some.inj hr ▸ List.suffix_rfl
  | streamInit =>
    have hr : streamInit s = some r := hr
    unfold streamInit at hr
    split at hr <;> exact Option.some.inj hr ▸ List.suffix_rfl
  | connect j i =>
    have hr : connect j i s = some r := hr
    unfold connect at hr
    split at hr
    · cases hr
    · split at hr <;> exact Option.some.inj hr ▸ List.suffix_rfl
  | listenerInit addrsOk timerOk =>
    have hr : interfaceEventInit addrsOk timerOk s = some r := hr
    unfold interfaceEventInit at hr
    split_ifs at hr <;> exact Option.some.inj hr ▸ List.suffix_rfl
  | listenerClose e =>
    have hr : interfaceEventClose e s = some r := hr
    unfold interfaceEventClose at hr
    split at hr
    · cases hr
    · split at hr <;> exact Option.some.inj hr ▸ List.suffix_rfl

/-- The log only grows. -/
theorem step_log {s t : State} {a : Action} (ht : step s a = some t) : s.log <:+ t.log := by
  have huv : uvCallback a s = some t → s.log <:+ t.log := by
    intro ht
    cases a with
    | call | streamClose | ret => cases ht
    | lookupDone =>
      simp only [uvCallback] at ht
      split at ht
      · cases ht
      · exact Option.some.inj ht ▸ List.suffix_rfl
    | socketHandle i =>
      simp only [uvCallback, onSocketHandleClose] at ht
      split at ht
      · rw [← Option.some.inj ht]
        split <;> exact List.suffix_rfl
      · cases ht
    | streamHandle j =>
      simp only [uvCallback, finalizeMaybe] at ht
      split at ht
      · rw [← Option.some.inj ht]
        split <;> exact List.suffix_rfl
      · cases ht
    | listenerTimer e =>
      simp only [uvCallback] at ht
      split at ht
      · exact Option.some.inj ht ▸ List.suffix_rfl
      · cases ht
  cases a with
  | call c =>
    obtain ⟨r, hr, rfl⟩ := Option.map_eq_some_iff.mp ht
    exact (runCall_log hr).trans (List.suffix_cons ..)
  | streamClose j =>
    have ht : closeStreamStart j s = some t := ht
    unfold closeStreamStart at ht
    split at ht
    · cases ht
    · split at ht
      · cases ht
      · exact Option.some.inj ht ▸ List.suffix_rfl
  | ret =>
    have ht : (match s.stack with
      | [] => none
      | f :: rest => resume f { s with stack := rest }) = some t := ht
    split at ht
    · cases ht
    next f rest hs =>
    cases f with
    | idle => exact Option.some.inj ht ▸ List.suffix_rfl
    | closeHandles j =>
      have ht : closeHandles j { s with stack := rest } = some t := ht
      unfold closeHandles at ht
      dsimp only at ht
      split at ht
      · cases ht
      split at ht
      · cases ht
      split at ht
      · exact Option.some.inj ht ▸ List.suffix_rfl
      split at ht
      · obtain ⟨r, hr, rfl⟩ := Option.map_eq_some_iff.mp ht
        exact (socketClose_log hr).symm ▸ List.suffix_rfl
      · exact Option.some.inj ht ▸ List.suffix_rfl
    | socketClosed | finalized | lookedUp | listenerClosed =>
      exact Option.some.inj ht ▸ refDec_log { s with stack := rest }
  | socketHandle | streamHandle | lookupDone | listenerTimer =>
    simp only [step] at ht
    split at ht
    · exact huv ht
    · cases ht

/-- In every run in which `uv_getaddrinfo` takes every lookup, `refs` is the
number of what is alive, and `on_idle` is called when that comes to nothing. -/
theorem Reach.accounted {onIdle : Bool} {s : State} (h : Reach onIdle s)
    (hlook : .getaddrinfoFailed ∉ s.log) : Accounted s := by
  have hall : .getaddrinfoFailed ∉ s.log → Sound s := by
    clear hlook
    induction h with
    | init =>
      intro _
      exact ⟨⟨rfl, trivial, by simp⟩, by simp, by simp⟩
    | step a hs ht ih =>
      intro hlook
      exact (ih fun hm => hlook ((step_log ht).mem hm)).step ht hlook
  exact (hall hlook).toAccounted

/-- One action after the other. -/
def runActions : List Action → State → Option State
  | [], s => some s
  | a :: as, s => (step s a).bind (runActions as)

theorem Reach.runActions {onIdle : Bool} {s t : State} (h : Reach onIdle s) {as : List Action}
    (ht : runActions as s = some t) : Reach onIdle t := by
  induction as generalizing s with
  | nil => exact Option.some.inj ht ▸ h
  | cons a as ih =>
    obtain ⟨u, hu, ht⟩ := Option.bind_eq_some_iff.mp ht
    exact ih (.step a h hu) ht

/-- A stream and its socket are closed, with a lookup and a listener beside
them. -/
def closingActions : List Action :=
  [.call .socketInit, .call .streamInit, .call (.connect 0 0), .call (.lookup true),
    .call (.listenerInit true true), .call (.socketClose 0), .streamClose 0, .ret, .call (.socketClose 0),
    .streamHandle 0, .streamHandle 0, .socketHandle 0, .streamHandle 0, .ret, .lookupDone, .ret,
    .call (.listenerClose 0), .listenerTimer 0, .ret, .socketHandle 0, .socketHandle 0, .ret]

theorem Reach.accounted_closing :
    ∃ s, Refs.runActions closingActions {} = some s ∧ s.refs = 0 ∧ .idle ∈ s.log ∧ Accounted s := by
  have hrun : ∃ s, Refs.runActions closingActions {} = some s ∧ s.refs = 0 ∧ .idle ∈ s.log ∧
      .getaddrinfoFailed ∉ s.log := ⟨_, rfl, by decide, by decide, by decide⟩
  obtain ⟨s, hs, hrefs, hidle, hlook⟩ := hrun
  exact ⟨s, hs, hrefs, hidle, (Reach.runActions .init hs).accounted hlook⟩

/-- A lookup that libuv refuses is counted for good. -/
theorem Reach.accounted_refused : ∃ s, Reach true s ∧ s.total = 0 ∧ s.refs = 1 ∧ ¬ Accounted s := by
  refine ⟨_, .step (.call (.lookup false)) .init rfl, by decide, by decide, fun h => ?_⟩
  exact absurd h.refs (by decide)

end Udx.Refs
