import WingPhp.Iocp.Defs

/-!
# `wing_iocp_server.c`: one pooled context

A context with the operations outstanding on its `m_ol` and the callbacks the
thread pool is running for it.  A callback advances one step at a time: each
Winsock call with its answer, each post, and each group of plain stores between
them, is one.  Its functions keep the source's names and take the callback at
the program counters that lie in them.

A step says what it does to the context and, in an `Effect`, what it does
beyond it: messages posted, an operation started, `iocp_create_client` called.
-/

namespace WingPhp.Iocp

/-- What `iocp_create_client` meets: a failure before `AcceptEx`, or the new
socket and the answer of `AcceptEx`. -/
inductive CreateAnswer where
  | failed
  | called (client : Nat) (a : CallAnswer)
  deriving DecidableEq, Repr

/-- What the outside world answers to the call a step makes.  `recvDone` is a
`WSARecv` that returns 0: the bytes are in the buffer already. -/
inductive Input where
  | go
  | clock (now : Int)
  | ret (lastError : Option Nat)
  | peer (r : Except Nat SockAddrIn)
  | call (a : CallAnswer)
  | recvDone (data : List UInt8)
  | create (a : CreateAnswer)

structure Effect where
  ol : IocpOverlapped
  next : Option Callback
  msgs : List Msg := []
  start : Option Op := none
  create : Option CreateAnswer := none
  retires : Bool := false

/-- `icop_worker_thread`. -/
def icopWorkerThread (povl : Nat) (ol : IocpOverlapped) (cb : Callback) (input : Input) :
    Option Effect :=
  match cb.pc, input with
  -- iocp_onbeat, then the test of the error code and the last error
  | .beat, .go =>
    some { ol, msgs := [.onBeat povl cb.lastError cb.lastError]
           next := some (cb.goto (if cb.Lost then .postClose else .opSwitch)) }
  | .opSwitch, .go =>
    match ol.iOpType with
    | .accept => some { ol, next := some (cb.goto .online) }
    | .recv =>
      let ol := { ol with recvBytes := cb.bytesTrans }
      if cb.bytesTrans = 0 ∨ cb.ConnReset then
        if cb.lastError ≠ wsaIoPending then some { ol, next := some (cb.goto .postClose) }
        else some { ol, next := none }
      else some { ol, next := some (cb.goto .recvCopy) }
  | _, _ => none

def iocpOnconnect (povl : Nat) (ol : IocpOverlapped) (cb : Callback) (input : Input) :
    Option Effect :=
  match cb.pc, input with
  | .online, .clock now =>
    some { ol := { ol with online := 1, active := now }, next := some (cb.goto .updateContext) }
  | .updateContext, .ret e =>
    some { ol, msgs := cb.errors povl e 0
           next := some ((cb.noted e).goto (if 0 < ol.timeout then .sndTimeo else .linger)) }
  | .sndTimeo, .ret e =>
    some { ol, msgs := cb.errors povl e 0, next := some ((cb.noted e).goto .rcvTimeo) }
  | .rcvTimeo, .ret e =>
    some { ol, msgs := cb.errors povl e 0, next := some ((cb.noted e).goto .linger) }
  -- a failure of SO_LINGER is not reported
  | .linger, .ret e => some { ol, next := some ((cb.noted e).goto .getpeername) }
  | .getpeername, .peer (.ok addr) =>
    some { ol := { ol with addrClient := addr }, next := some (cb.goto .keepAlive) }
  | .getpeername, .peer (.error e) =>
    some { ol := { ol with addrClient := .zero }, msgs := cb.errors povl (some e) 0
           next := some ((cb.noted (some e)).goto .keepAlive) }
  | .keepAlive, .ret e =>
    some { ol, msgs := cb.errors povl e 0, next := some ((cb.noted e).goto .keepAliveVals) }
  -- WSAIoctl on m_ol; a pending one is reported as an error too
  | .keepAliveVals, .call a =>
    some { ol, msgs := cb.errors povl a.lastError 0
           start := if a.Started then some ⟨.ioctl, cb.conn, none⟩ else none
           next := some ((cb.called a).goto .postConnect) }
  | .postConnect, .go =>
    some { ol, msgs := [.onConnect povl cb.conn], next := some (cb.goto .setRecv) }
  | _, _ => none

def iocpPostRecv (povl : Nat) (ol : IocpOverlapped) (cb : Callback) (input : Input) :
    Option Effect :=
  match cb.pc, input with
  | .setRecv, .go =>
    some { ol := { ol with dataBufLen := dataBufSize, iOpType := .recv }
           next := some (cb.goto .wsaRecv) }
  | .wsaRecv, .recvDone data =>
    if data.length ≤ ol.dataBufLen then
      some { ol := (Completion.received data).store ol
             start := some ⟨.recv, cb.conn, some (.received data)⟩
             next := some ((cb.called .success).goto .recvCopy) }
    else none
  | .wsaRecv, .call (.error e) =>
    if (CallAnswer.error e).Started then
      some { ol, start := some ⟨.recv, cb.conn, none⟩, next := none }
    else
      some { ol, msgs := cb.errors povl (some e) (-1)
             next := some ((cb.called (.error e)).goto .cancel) }
  | _, _ => none

/-- `strlen` and the copy are one step: they read `m_pBuf` and write fresh memory. -/
def iocpOnrecv (povl : Nat) (ol : IocpOverlapped) (cb : Callback) (input : Input) :
    Option Effect :=
  match cb.pc, input with
  | .recvCopy, .clock now =>
    some { ol := { ol with active := now }, next := some (cb.goto (.recvZero (upToNul ol.fromBuf))) }
  | .recvZero recvmsg, .go =>
    some { ol := { ol with pBuf := .zero dataBufSize }, next := some (cb.goto (.recvPost recvmsg)) }
  | .recvPost recvmsg, .go =>
    some { ol, msgs := [.onRecv povl cb.conn recvmsg cb.lastError], next := none }
  | _, _ => none

/-- `nextConn` is the ghost number of the connection the `AcceptEx` may accept. -/
def iocpOnclose (povl nextConn : Nat) (ol : IocpOverlapped) (cb : Callback) (input : Input) :
    Option Effect :=
  match cb.pc, input with
  | .postClose, .go =>
    some { ol, msgs := [.onClose povl cb.conn cb.lastError], next := some (cb.goto .disconnect) }
  | .disconnect, .call a =>
    if a.Started then
      some { ol, start := some ⟨.disconnect, cb.conn, none⟩
             next := some ((cb.called a).goto .reset) }
    else
      some { ol, msgs := cb.errors povl a.lastError (-2), next := some ((cb.called a).goto .cancel) }
  | .reset, .clock now =>
    some { ol := { ol with
             online := 0, active := now, iOpType := .accept, isUsed := 0
             pBuf := .zero dataBufSize }
           next := some (cb.goto .acceptEx) }
  | .acceptEx, .call a =>
    if a.Started then some { ol, start := some ⟨.accept, nextConn, none⟩, next := none }
    else
      some { ol, msgs := cb.errors povl a.lastError (-3), next := some ((cb.called a).goto .cancel) }
  | _, _ => none

/-- `CancelIoEx` and `shutdown` change nothing here: a cancelled operation ends
with an error. -/
def iocpOnerror (ol : IocpOverlapped) (cb : Callback) (input : Input) : Option Effect :=
  match cb.pc, input with
  | .cancel, .go => some { ol, next := some (cb.goto .create) }
  | .create, .create a => some { ol, create := some a, next := some (cb.goto .retire) }
  | .retire, .go => some { ol := { ol with usenum := 0 }, next := none, retires := true }
  | _, _ => none

/-- One step of a callback. -/
def Callback.step (povl nextConn : Nat) (ol : IocpOverlapped) (cb : Callback) (input : Input) :
    Option Effect :=
  match cb.pc with
  | .beat | .opSwitch => icopWorkerThread povl ol cb input
  | .online | .updateContext | .sndTimeo | .rcvTimeo | .linger | .getpeername | .keepAlive
  | .keepAliveVals | .postConnect => iocpOnconnect povl ol cb input
  | .setRecv | .wsaRecv => iocpPostRecv povl ol cb input
  | .recvCopy | .recvZero _ | .recvPost _ => iocpOnrecv povl ol cb input
  | .postClose | .disconnect | .reset | .acceptEx => iocpOnclose povl nextConn ol cb input
  | .cancel | .create | .retire => iocpOnerror ol cb input

/-! ## A context -/

structure Context where
  ol : IocpOverlapped
  ops : List Op
  callbacks : List Callback
  deriving DecidableEq, Repr

/-- The operation at `j` ends. -/
def Context.complete (cx : Context) (j : Nat) (r : Completion) : Option Context :=
  match cx.ops[j]? with
  | some ⟨kind, conn, none⟩ =>
    if r.Allowed cx.ol kind then
      some { cx with ol := r.store cx.ol, ops := cx.ops.set j ⟨kind, conn, some r⟩ }
    else none
  | _ => none

/-- The thread pool calls `icop_worker_thread` for the ended operation at `j`, on
a thread whose last error is whatever an earlier call left. -/
def Context.deliver (cx : Context) (j lastError : Nat) : Option Context :=
  match cx.ops[j]? with
  | some ⟨kind, conn, some r⟩ =>
    some { cx with
      ops := cx.ops.eraseIdx j
      callbacks := cx.callbacks ++ [⟨kind, conn, r.errorCode, r.bytesTrans, lastError, false, .beat⟩] }
  | _ => none

/-- The callback at `i` takes a step. -/
def Context.run (povl nextConn : Nat) (cx : Context) (i : Nat) (input : Input) :
    Option (Context × Effect) :=
  match cx.callbacks[i]? with
  | some cb =>
    match cb.step povl nextConn cx.ol input with
    | some e =>
      some (⟨e.ol, cx.ops ++ e.start.toList,
        match e.next with
        | some cb' => cx.callbacks.set i cb'
        | none => cx.callbacks.eraseIdx i⟩, e)
    | none => none
  | none => none

end WingPhp.Iocp
