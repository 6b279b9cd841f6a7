import WingPhp.Basic
import WingPhp.Lib.Machine

/-!
# `wing_sclient.c`: sending through the thread pool

`wing_sclient::send` copies the message into a `socket_send_node` and queues
`send_thread` for it with `QueueUserWorkItem`; the pool runs the queued items
in any order.  An item runs in two steps: the `send()` call, and, after the
node is deleted, the post of `WM_ONSEND`.

Ghosts: a node carries its position in the order of the calls, `calls` is that
order, and `wire` records what each `send()` did: which connection the handle
value denoted at that moment and how many bytes Winsock took.
-/

namespace WingPhp.Sclient

open Transition

/-- `socket_send_node`; `call` is a ghost. -/
structure SendNode where
  socket : Sock
  msg : List UInt8
  len : Nat
  call : Nat
  deriving DecidableEq, Repr

/-- Where a pool thread is in `send_thread`. -/
inductive TaskPhase where
  | queued
  | sent (sendStatus : Nat)
  deriving DecidableEq, Repr

structure SendTask where
  node : SendNode
  phase : TaskPhase
  deriving DecidableEq, Repr

/-- The `WM_ONSEND` message: socket and status.  `call` is a ghost: the node
the report is about, if one was queued. -/
structure SendReport where
  socket : Sock
  sendStatus : Nat
  call : Option Nat
  deriving DecidableEq, Repr

/-- What `send()` answers: `SOCKET_ERROR`, or the number of bytes it took. -/
inductive SendResult where
  | error
  | wrote (sendBytes : Nat)
  deriving DecidableEq, Repr

/-- The answers Winsock allows for a request of `len` bytes. -/
def SendResult.Allowed (len : Nat) : SendResult → Prop
  | .error => True
  | .wrote n => n ≤ len ∧ (0 < n ∨ len = 0)

instance (len : Nat) (r : SendResult) : Decidable (r.Allowed len) :=
  match r with
  | .error => .isTrue trivial
  | .wrote n => inferInstanceAs (Decidable (n ≤ len ∧ (0 < n ∨ len = 0)))

/-- One `send()` call. -/
structure WireEvent where
  node : SendNode
  target : Option Nat
  result : SendResult
  deriving DecidableEq, Repr

/-- The bytes the call put on the connection. -/
def WireEvent.bytes (e : WireEvent) : List UInt8 :=
  match e.result with
  | .error => []
  | .wrote n => e.node.msg.take n

structure Pool where
  tasks : List SendTask
  calls : List SendNode
  wire : List WireEvent
  deriving DecidableEq, Repr

def Pool.empty : Pool := ⟨[], [], []⟩

/-- `send_thread` up to the return of `send()`. -/
def sendThreadSend (p : Pool) (handles : Handles) (k : Nat) (r : SendResult) : Option Pool :=
  match p.tasks[k]? with
  | some ⟨node, .queued⟩ =>
    if r.Allowed node.len then
      let sendStatus := if r = .error then 0 else 1
      some { p with
        tasks := p.tasks.set k ⟨node, .sent sendStatus⟩
        wire := p.wire ++ [⟨node, handles node.socket.value, r⟩] }
    else none
  | _ => none

/-- The rest of `send_thread`: the node is deleted, `WM_ONSEND` is posted. -/
def sendThreadPost (p : Pool) (k : Nat) : Option (Pool × SendReport) :=
  match p.tasks[k]? with
  | some ⟨node, .sent sendStatus⟩ =>
    some ({ p with tasks := p.tasks.eraseIdx k }, ⟨node.socket, sendStatus, some node.call⟩)
  | _ => none

/-- `QueueUserWorkItem` takes the node. -/
def Pool.enqueue (p : Pool) (node : SendNode) : Pool :=
  { p with tasks := p.tasks ++ [⟨node, .queued⟩], calls := p.calls ++ [node] }

/-- `socket_send`: the pool afterwards, the returned flag, and the `WM_ONSEND`
it posts itself when the item is not queued.  `queued` is the answer of
`QueueUserWorkItem`. -/
def socketSend (p : Pool) (socket : Sock) (msg : List UInt8) (len : Nat) (queued : Bool) :
    Pool × Bool × Option SendReport :=
  if socket.value = invalidSocketValue then (p, false, some ⟨socket, 0, none⟩)
  else
    let node : SendNode := ⟨socket, msg.take len, len, p.calls.length⟩
    if queued then (p.enqueue node, true, none)
    else (p, false, some ⟨socket, 0, none⟩)

/-- `wing_sclient::send`, with its PHP return value. -/
def sclientSend (p : Pool) (client : SClient) (msg : List UInt8) (queued : Bool) :
    Pool × Int × Option SendReport :=
  let isocket := ulongToInt client.socket.value
  if isocket ≤ 0 then (p, wingErrorFailed, none)
  else
    match socketSend p client.socket msg msg.length queued with
    | (p', false, r) => (p', wingErrorFailed, r)
    | (p', true, r) => (p', wingErrorSuccess, r)

/-! ## What the three functions do -/

theorem sendThreadSend_eq {p p' : Pool} {handles : Handles} {k : Nat} {r : SendResult}
    (h : sendThreadSend p handles k r = some p') :
    ∃ node, p.tasks[k]? = some ⟨node, .queued⟩ ∧ r.Allowed node.len ∧
      p' = { p with
        tasks := p.tasks.set k ⟨node, .sent (if r = .error then 0 else 1)⟩
        wire := p.wire ++ [⟨node, handles node.socket.value, r⟩] } := by
  unfold sendThreadSend at h
  split at h
  · next node hk =>
    split at h
    · next hr => exact ⟨node, hk, hr, (Option.some.inj h).symm⟩
    · cases h
  · cases h

theorem sendThreadPost_eq {p p' : Pool} {k : Nat} {rep : SendReport}
    (h : sendThreadPost p k = some (p', rep)) :
    ∃ node st, p.tasks[k]? = some ⟨node, .sent st⟩ ∧ p' = { p with tasks := p.tasks.eraseIdx k } ∧
      rep = ⟨node.socket, st, some node.call⟩ := by
  unfold sendThreadPost at h
  split at h
  · next node st hk =>
    cases h
    exact ⟨node, st, hk, rfl, rfl⟩
  · cases h

/-- This call of `send` queues a node. -/
def SClient.Queues (client : SClient) (queued : Bool) : Prop :=
  0 < ulongToInt client.socket.value ∧ queued = true

instance (client : SClient) (queued : Bool) : Decidable (SClient.Queues client queued) :=
  inferInstanceAs (Decidable (_ ∧ _))

/-- A call of `send` either queues one node for the object's socket, or changes
nothing and reports at most a failure. -/
theorem sclientSend_cases (p : Pool) (client : SClient) (msg : List UInt8) (queued : Bool) :
    ((sclientSend p client msg queued).1 = p ∧
      ∀ r ∈ (sclientSend p client msg queued).2.2, r.sendStatus = 0 ∧ r.call = none) ∨
    (SClient.Queues client queued ∧ sclientSend p client msg queued =
      (p.enqueue ⟨client.socket, msg.take msg.length, msg.length, p.calls.length⟩,
        wingErrorSuccess, none)) := by
  unfold sclientSend
  dsimp only
  by_cases hle : ulongToInt client.socket.value ≤ 0
  · rw [if_pos hle]
    exact .inl ⟨rfl, nofun⟩
  · rw [if_neg hle]
    unfold socketSend
    by_cases hinv : client.socket.value = invalidSocketValue
    · rw [if_pos hinv]
      refine .inl ⟨rfl, fun r hr => ?_⟩
      obtain rfl := Option.mem_some_iff.mp hr
      exact ⟨rfl, rfl⟩
    · rw [if_neg hinv]
      cases queued with
      | true => exact .inr ⟨⟨by omega, rfl⟩, rfl⟩
      | false =>
        refine .inl ⟨rfl, fun r hr => ?_⟩
        obtain rfl := Option.mem_some_iff.mp hr
        exact ⟨rfl, rfl⟩

end WingPhp.Sclient
